import PRpc.Sock

/-!
# The values on the wire

`Writable` is the class hierarchy of the source: a base `Writable`, an `IntWritable` or a
`MethodWritable` with its vector of parameters. This module holds their encoders; the bytes are
those of writes that all succeed.
-/

namespace PRpc

/-- An object of the class `Writable` or of a class derived from it. -/
inductive Writable
  | base
  | int (value : CInt)
  | method (className methodName : Bytes) (params : List Writable)

namespace Writable

/-- Induction over an object together with the vectors of parameters inside it. -/
theorem induction {P : Writable → Prop} {Q : List Writable → Prop} (base : P .base)
    (int : ∀ v, P (.int v)) (method : ∀ c m ps, Q ps → P (.method c m ps)) (nil : Q [])
    (cons : ∀ w ws, P w → Q ws → Q (w :: ws)) : (∀ w, P w) ∧ ∀ ws, Q ws :=
  ⟨fun w => Writable.rec base int method nil cons w,
    fun ws => Writable.rec_1 base int method nil cons ws⟩

mutual

def decEq : (a b : Writable) → Decidable (a = b)
  | .base, .base => .isTrue rfl
  | .base, .int _ => .isFalse nofun
  | .base, .method _ _ _ => .isFalse nofun
  | .int _, .base => .isFalse nofun
  | .int v, .int v' => decidable_of_iff (v = v') (by simp)
  | .int _, .method _ _ _ => .isFalse nofun
  | .method _ _ _, .base => .isFalse nofun
  | .method _ _ _, .int _ => .isFalse nofun
  | .method c m ps, .method c' m' ps' =>
    have := decEqs ps ps'
    decidable_of_iff (c = c' ∧ m = m' ∧ ps = ps') (by simp)

def decEqs : (as bs : List Writable) → Decidable (as = bs)
  | [], [] => .isTrue rfl
  | [], _ :: _ => .isFalse nofun
  | _ :: _, [] => .isFalse nofun
  | a :: as, b :: bs =>
    have := decEq a b
    have := decEqs as bs
    decidable_of_iff (a = b ∧ as = bs) (by simp)

end

instance : DecidableEq Writable := decEq

/-- The dynamic class of an object, by its name. -/
def getClass : Writable → Bytes
  | .base => ascii "Writable"
  | .int _ => ascii "IntWritable"
  | .method _ _ _ => ascii "MethodWritable"

/-- A string is sent as an `int` length and its bytes; one of length zero is not sent at all. -/
def writeString (str : Bytes) : Bytes :=
  let length := intOfSize str.length
  if length = 0 then [] else intBytes length ++ str

end Writable

/-! ## `IntWritable` and `MethodWritable` -/

/-- The representation of the value, as `setValue` of a call stores it. -/
def IntWritable.toString (value : CInt) : Bytes := intBytes value

def IntWritable.write (value : CInt) : Bytes := sizeBytes 4 ++ intBytes value

mutual

def Writable.write : Writable → Bytes
  | .base => []
  | .int value => IntWritable.write value
  | .method className methodName params =>
    Writable.writeString className ++ Writable.writeString methodName ++ sizeBytes params.length ++
      MethodWritable.writeParams params

/-- The loop over the parameters in `MethodWritable::write`. -/
def MethodWritable.writeParams : List Writable → Bytes
  | [] => []
  | w :: ws => Writable.writeString w.getClass ++ w.write ++ MethodWritable.writeParams ws

end

/-- A parameter is a `MethodWritable`. If a write inside it fails it returns `-1`, at which the loop
over the parameters does not look. -/
def Writable.nests : Writable → Bool
  | .method _ _ params => params.any fun w => w.getClass = ascii "MethodWritable"
  | _ => false

/-- Only an `IntWritable` has a representation: the other two build a string from `NULL`. -/
def Writable.toString : Writable → Except Exn Bytes
  | .int value => .ok (IntWritable.toString value)
  | .base => .error .logicError
  | .method _ _ _ => .error .logicError

def Writable.printToString : Writable → Except Exn Bytes
  | .base => .error .logicError
  | .int value => .ok (ascii (ToString.toString value.toInt))
  | .method className methodName _ =>
    .ok (ascii "class : " ++ className ++ ascii " , method : " ++ methodName)

@[simp] theorem IntWritable.length_toString (v : CInt) : (IntWritable.toString v).length = 4 :=
  length_intBytes v

namespace Writable

theorem writeString_eq {str : Bytes} (h0 : str ≠ []) (h : str.length < 2 ^ 32) :
    writeString str = intBytes (intOfSize str.length) ++ str := by
  have hpos : 0 < str.length := List.length_pos_iff.mpr h0
  have hne : intOfSize str.length ≠ 0 := by
    intro hz
    have := congrArg BitVec.toNat hz
    rw [toNat_intOfSize h] at this
    change str.length = 0 at this
    omega
  unfold writeString
  exact if_neg hne

theorem getClass_ne_nil (w : Writable) : w.getClass ≠ [] := by
  cases w <;> simp [getClass, ascii]

theorem length_getClass_le (w : Writable) : w.getClass.length ≤ 14 := by
  cases w <;> simp [getClass, ascii]

end Writable

end PRpc
