import DbPlanBench.Json.Value

/-!
# Python exceptions

The exceptions the modelled functions can raise. A `PlanTransferError` carries
its text in the parts the source formats it from: `"{stage}: {tag} k=v ..."`.
The code never looks into that text, but it does look at the class of an
exception, so the class name is what the wrapped errors record.
-/

namespace DbPlanBench

inductive PyErr where
  | planTransferError (stage tag : String) (detail : List (String × Json))
  | valueError (msg : String)
  | keyError
  | indexError
  | attributeError
  | typeError
  | runtimeError (msg : String)
  | fileExistsError
deriving DecidableEq

namespace PyErr

/-- `e.__class__.__name__`. -/
def className : PyErr → String
  | .planTransferError .. => "PlanTransferError"
  | .valueError _ => "ValueError"
  | .keyError => "KeyError"
  | .indexError => "IndexError"
  | .attributeError => "AttributeError"
  | .typeError => "TypeError"
  | .runtimeError _ => "RuntimeError"
  | .fileExistsError => "FileExistsError"

/-- `isinstance(e, PlanTransferError)`. -/
def IsPlanTransfer : PyErr → Prop
  | .planTransferError .. => True
  | _ => False

instance (e : PyErr) : Decidable e.IsPlanTransfer := by
  cases e <;> (unfold IsPlanTransfer; infer_instance)

/-- `except PlanTransferError: raise` / `except Exception as e: raise PlanTransferError(...)`. -/
def wrap (stage tag : String) (e : PyErr) : PyErr :=
  match e with
  | .planTransferError .. => e
  | _ => .planTransferError stage tag [("err", .str e.className)]

theorem isPlanTransfer_wrap (stage tag : String) (e : PyErr) : (e.wrap stage tag).IsPlanTransfer := by
  cases e <;> trivial

end PyErr

end DbPlanBench
