import GridStencil.Literal
import GridStencil.Proofs.Number.Text

/-!
**Different constants have different texts.**

Behind its sign the text of an integer is digits, the text of a finite double is digits with a point
or a power of ten, and all other constants are words. So the text says of which kind the constant is
(`kindOf_render`), and within a kind no two constants share a text.

* `render_injective`: constants that have the same text are the same.
-/

namespace GridStencil.Literal

open Grammar

/-- The kinds of constants. -/
inductive Kind
  | int
  | float
  | bool
deriving DecidableEq

/-- The kind of a constant. -/
def kind : Literal → Kind
  | int _ => .int
  | float _ => .float
  | bool _ => .bool

/-- The kind of constant that a text stands for. Behind the sign of an integer are digits, which
make up no double on their own. -/
def kindOf (text : String) : Kind :=
  let body := (Number.splitSign text.toList).2
  if (Pattern.digits.split body).isSome && (Pattern.float.split body).isNone then .int
  else if text = "True" ∨ text = "False" then .bool
  else .float

theorem kindOf_toString (n : Int) : kindOf (toString n) = .int := by
  have digits := Pattern.split_digits_toString n.natAbs endsToken_nil
  have no_float := Pattern.split_float_none (Number.toList_toString_ne_nil n.natAbs)
    (Number.all_isDigit_toString n.natAbs) endsToken_nil
  rw [List.append_nil] at digits no_float
  unfold kindOf
  rw [Number.splitSign_toString]
  dsimp only
  rw [digits, no_float]
  rfl

theorem kindOf_text (x : Float) : kindOf (Number.text x) = .float := by
  cases form_x : Number.Binary64.form x with
  | finite negative mantissa exponent =>
    have float := (Number.isSome_split_text x).mpr ⟨_, _, _, form_x⟩
    have no_word : ¬ (Number.text x = "True" ∨ Number.text x = "False") := by
      rintro (word | word) <;> rw [word] at float <;> exact absurd float (by decide)
    unfold kindOf
    rw [if_neg no_word, if_neg]
    intro both
    exact Option.isSome_iff_ne_none.mp float (Option.isNone_iff_eq_none.mp
      (Bool.and_eq_true_iff.mp both).2)
  | nan =>
    unfold Number.text
    rw [form_x]
    decide
  | infinite negative =>
    unfold Number.text
    rw [form_x]
    cases negative <;> decide

theorem kindOf_render (value : Literal) : kindOf value.render = value.kind := by
  cases value with
  | int n => exact kindOf_toString n
  | float x => exact kindOf_text x
  | bool b => cases b <;> decide

/-- **Different constants have different texts.** -/
theorem render_injective : Function.Injective render := by
  intro a b same
  have kinds : a.kind = b.kind := by rw [← kindOf_render, same, kindOf_render]
  cases a with
  | int n =>
    cases b with
    | int m => exact congrArg int (Number.toString_int_injective (congrArg String.toList same))
    | float y => cases kinds
    | bool b => cases kinds
  | float x =>
    cases b with
    | float y => exact congrArg float (Number.text_injective same)
    | int m => cases kinds
    | bool b => cases kinds
  | bool a =>
    cases b with
    | bool b => revert same; cases a <;> cases b <;> decide
    | int m => cases kinds
    | float y => cases kinds

end GridStencil.Literal
