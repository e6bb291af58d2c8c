import Treewalk.Main
import Treewalk.Proofs.Binding.Lexical
import Treewalk.Proofs.Diagnostic.Frames
import Treewalk.Proofs.Diagnostic.Independence
import Treewalk.Proofs.Grammar.Resumption
import Treewalk.Proofs.Grammar.StaticChecks
import Treewalk.Proofs.Session.Colors
import Treewalk.Proofs.Session.Construction
import Treewalk.Proofs.Session.ForStatements
import Treewalk.Proofs.Session.JsonReports
import Treewalk.Proofs.Session.ObjectGraph
import Treewalk.Proofs.Session.Registrations
import Treewalk.Proofs.Session.Rounds
import Treewalk.Proofs.Session.ScopeAgreement
import Treewalk.Proofs.Session.Spacing
import Treewalk.Proofs.Session.Terminator
import Treewalk.Proofs.Session.TreeTexts
import Treewalk.Proofs.Source.Offsets
