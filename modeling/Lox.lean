import Lox.Session
import Lox.Store.Lemmas
import Lox.Token.Text
import Lox.Syntax.Visitor
import Lox.Config.File
import Lox.Proofs.Printing.Trees
import Lox.Proofs.Scoping.Balance
import Lox.Proofs.Scoping.Rules
import Lox.Proofs.Run.Chain
import Lox.Proofs.Run.Assign
import Lox.Proofs.Run.Reads
import Lox.Proofs.Run.Sessions
import Lox.Proofs.Run.Splitting
import Lox.Proofs.Run.Balance
import Lox.Proofs.Run.Termination
import Lox.Proofs.Run.Limit
import Lox.Proofs.Run.ThisSuper
import Lox.Proofs.Lexical.Programs
import Lox.Proofs.Run.Persistence
import Lox.Proofs.Run.Ancestry
import Lox.Proofs.Run.Results
import Lox.Proofs.Store.Search
import Lox.Proofs.Run.Returns
import Lox.Proofs.Run.Construction
import Lox.Proofs.Run.Blame
import Lox.Proofs.Run.Inheritance
import Lox.Proofs.Renaming.Sessions
