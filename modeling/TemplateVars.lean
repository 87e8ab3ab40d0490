import TemplateVars.Expr.Sexp
import TemplateVars.Log
import TemplateVars.Main
import TemplateVars.Proofs.Analysis.Delimiters
import TemplateVars.Proofs.Analysis.Free
import TemplateVars.Proofs.Analysis.Renaming
import TemplateVars.Proofs.Analysis.Visits
import TemplateVars.Proofs.Command.Frame
import TemplateVars.Proofs.Command.Recursive
import TemplateVars.Proofs.Grammar.Arrows
import TemplateVars.Proofs.Grammar.Calls
import TemplateVars.Proofs.Grammar.Chains
import TemplateVars.Proofs.Grammar.Completeness
import TemplateVars.Proofs.Grammar.Groups
import TemplateVars.Proofs.Grammar.Parentheses
import TemplateVars.Proofs.Grammar.Slash
import TemplateVars.Proofs.Grammar.Steps
import TemplateVars.Proofs.Grammar.Substitutions
import TemplateVars.Proofs.Template.NamePattern
import TemplateVars.Proofs.Template.Reading
import TemplateVars.Proofs.Template.Respelling
import TemplateVars.Proofs.Token.Decimal
import TemplateVars.Proofs.Token.Literal
import TemplateVars.Proofs.Token.Tiling
