import LlvmAsm.Text.Quoted
import LlvmAsm.Text.RangeTable
import LlvmAsm.Text.Printable
import LlvmAsm.Text.GraphemeExtend
import LlvmAsm.Text.Escaped
import LlvmAsm.Binary.Format
import LlvmAsm.Decimal.Shortest
import LlvmAsm.Decimal.Read
import LlvmAsm.Error
import LlvmAsm.Literal.Integer
import LlvmAsm.Literal.Floating
import LlvmAsm.Ir.Keyword
import LlvmAsm.Ir.Linkage
import LlvmAsm.Ir.Operator
import LlvmAsm.Ir.Type
import LlvmAsm.Ir.Attribute
import LlvmAsm.Ast.Tree
import LlvmAsm.Ast.Cursor
import LlvmAsm.Ast.Grammar.Type
import LlvmAsm.Ast.Grammar.Constant
import LlvmAsm.Ast.Grammar.Function
import LlvmAsm.Ast.Grammar.Module
import LlvmAsm.Ir.Constant
import LlvmAsm.Ir.Instruction
import LlvmAsm.Ir.Function
import LlvmAsm.Ir.Module
import LlvmAsm.Lowering.Scope
import LlvmAsm.Lowering.Constant
import LlvmAsm.Lowering.Function
import LlvmAsm.Lowering.Fixup
import LlvmAsm.Lowering.Module
import LlvmAsm.Pipeline
import LlvmAsm.Main
import LlvmAsm.Proofs.Numbering
import LlvmAsm.Proofs.Lowering.Run
import LlvmAsm.Proofs.Lowering.History
import LlvmAsm.Proofs.Lowering.ConstantTypes
import LlvmAsm.Proofs.Sites
import LlvmAsm.Proofs.Lowering.FirstPass
import LlvmAsm.Proofs.Lowering.SecondPass
import LlvmAsm.Proofs.Lowering.Body
import LlvmAsm.Proofs.Resolution
import LlvmAsm.Proofs.Lowering.Stages
import LlvmAsm.Proofs.LocalNumbering
import LlvmAsm.Proofs.Lowering.Queue
import LlvmAsm.Proofs.BlockAddresses
import LlvmAsm.Proofs.TypeAliases
import LlvmAsm.Proofs.StableNumbering
import LlvmAsm.Proofs.Lowering.Failures
import LlvmAsm.Proofs.Lowering.Steps
import LlvmAsm.Proofs.Lowering.ScopeAgreement
import LlvmAsm.Proofs.NumberExhaustion
import LlvmAsm.Proofs.ItemOrder
import LlvmAsm.Proofs.Text.Ascii
import LlvmAsm.Proofs.IntegerLiterals
import LlvmAsm.Proofs.Lowering.WellTypedConstants
import LlvmAsm.Proofs.Text.Names
import LlvmAsm.Proofs.Reading.Tokens
import LlvmAsm.Proofs.Reading.Types
import LlvmAsm.Proofs.Reading.Constants
import LlvmAsm.Proofs.Lowering.Relowering
import LlvmAsm.Proofs.Text.Escapes
import LlvmAsm.Proofs.Reading.Labels
import LlvmAsm.Proofs.ElementAddresses
import LlvmAsm.Proofs.Reading.Totality
import LlvmAsm.Proofs.Lowering.Draining
import LlvmAsm.Proofs.Lowering.FailedConstants
import LlvmAsm.Proofs.Floats.Rounding
import LlvmAsm.Proofs.Floats.Shortest
import LlvmAsm.Proofs.Floats.DecimalText
import LlvmAsm.Proofs.Floats.RoundTrip
import LlvmAsm.Proofs.Written.Form
import LlvmAsm.Proofs.Written.FirstPass
import LlvmAsm.Proofs.Written.SecondPass
import LlvmAsm.Proofs.Written.Names
import LlvmAsm.Proofs.Written.Function
import LlvmAsm.Proofs.Written.Module
import LlvmAsm.Proofs.Printed.Attributes
import LlvmAsm.Proofs.Printed.Header
import LlvmAsm.Proofs.Printed.Function
import LlvmAsm.Proofs.Printed.Module
import LlvmAsm.Proofs.CanonicalText
