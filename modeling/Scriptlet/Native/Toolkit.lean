import Scriptlet.Native

/-!
# A toolkit of host functions

A few functions that a host can register beside the standard library: they show that a host function
can compute, inspect the heap, allocate, and raise a fault of its own.
-/

namespace Scriptlet.Toolkit

/-- The functions and the keys of their actions. The last one takes the place of a function of the
standard library. -/
def decls : List NativeDecl :=
  [⟨"twice", 1, .host "twice"⟩, ⟨"fail", 0, .host "fail"⟩, ⟨"noted", 1, .host "noted"⟩,
    ⟨"type_of", 1, .host "type_of"⟩, ⟨"len", 1, .host "len"⟩, ⟨"pair", 2, .host "pair"⟩,
    ⟨"readline", 0, .host "readline"⟩]

/-- What the functions do. -/
def host : Host := fun key args h =>
  let arg := args.headD .null
  match key with
  | "twice" => do
    let x ← h.toNumber arg
    return .value (.number (x * 2.0))
  | "fail" => .error (FaultCause.custom "host failure")
  | "noted" => .error { cause := .custom (h.text arg), notes := ["raised by host"] }
  | "type_of" => .ok (.value (.text arg.kind.name))
  | "len" =>
    match h.length? arg with
    | some n => .ok (.value (.number (Number.ofNat n)))
    | none => .error (FaultCause.custom (arg.kind.name ++ " has no length"))
  | "pair" => .ok (.array args)
  | "readline" => .ok (.value (.text "overridden"))
  | _ => .ok (.value .null)

end Scriptlet.Toolkit
