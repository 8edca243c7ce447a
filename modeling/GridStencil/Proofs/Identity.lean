import GridStencil.Proofs.Literal
import GridStencil.Proofs.Name.Table
import GridStencil.Registry
import Mathlib.Data.List.Basic
import Mathlib.Data.Nat.ModEq

/-!
**What the digest of a compilation is taken from.**

The hashed bytes are four texts, each behind its length, so they determine the texts
(`hashed_texts`). The texts determine the inputs as far as their marks can be told from the names
between them: a name with a comma in it may look like two names. Constants have texts of their own
(`Literal.render_injective`). So where no name contains a mark, the bytes determine the name of the
definition, the externals, the backend and the signature (`hashed_inputs`).
-/

namespace GridStencil

/-! ### Lengths -/

namespace Digest

theorem littleEndian_length (count n : Nat) : (littleEndian count n).length = count := by
  unfold littleEndian
  rw [List.length_map, List.length_range]

/-- Some bytes of a number determine as much of it as they can hold. -/
theorem littleEndian_mod {count m n : Nat} (same : littleEndian count m = littleEndian count n) :
    m % 256 ^ count = n % 256 ^ count := by
  induction count with
  | zero => rw [Nat.pow_zero, Nat.mod_one, Nat.mod_one]
  | succ count ih =>
    unfold littleEndian at same
    rw [List.range_succ, List.map_append, List.map_append] at same
    obtain ⟨lower, upper⟩ := List.append_inj' same rfl
    have last : m / 256 ^ count % 256 = n / 256 ^ count % 256 := by
      have bytes := congrArg UInt8.toNat (List.cons.inj upper).1
      simpa [Nat.shiftRight_eq_div_pow, Nat.pow_mul] using bytes
    rw [Nat.mod_pow_succ, Nat.mod_pow_succ, ih lower, last]

theorem littleEndian_injective {count m n : Nat} (small : m < 256 ^ count)
    (small' : n < 256 ^ count)
    (same : littleEndian count m = littleEndian count n) : m = n := by
  have remainders := littleEndian_mod same
  rwa [Nat.mod_eq_of_lt small, Nat.mod_eq_of_lt small'] at remainders

end Digest

namespace StencilId

/-- The bytes are collected from the back. -/
theorem toList_loop (bytes : ByteArray) (i : Nat) (seen : List UInt8) :
    ByteArray.toList.loop bytes i seen = seen.reverse ++ bytes.data.toList.drop i := by
  fun_induction ByteArray.toList.loop bytes i seen with
  | case1 i seen inside ih =>
    have inside' : i < bytes.data.toList.length := inside
    have here : bytes.get! i = bytes.data.toList[i] := getElem!_pos bytes.data i inside
    rw [ih, List.reverse_cons, List.append_assoc, List.drop_eq_getElem_cons inside', here]
    rfl
  | case2 i seen outside =>
    have outside' : bytes.data.toList.length ≤ i := Nat.le_of_not_lt outside
    rw [List.drop_of_length_le outside', List.append_nil]

theorem utf8_injective {a b : String} (same : utf8 a = utf8 b) : a = b := by
  have bytes := (toList_loop a.toUTF8 0 []).symm.trans (same.trans (toList_loop b.toUTF8 0 []))
  refine String.toByteArray_inj.mp (ByteArray.ext (Array.toList_inj.mp ?_))
  exact bytes

/-- A text whose length fits in front of it. -/
def Short (text : String) : Prop := (utf8 text).length < 256 ^ 8

instance : DecidablePred Short := fun text =>
  inferInstanceAs (Decidable ((utf8 text).length < 256 ^ 8))

/-- The first text of some measured ones can be told from the rest. -/
theorem measured_append {a b : String} (shortA : Short a) (shortB : Short b) {xs ys : List UInt8}
    (same : measured a ++ xs = measured b ++ ys) : a = b ∧ xs = ys := by
  unfold measured at same
  rw [List.append_assoc, List.append_assoc] at same
  obtain ⟨lengths, rest⟩ := List.append_inj same
    ((Digest.littleEndian_length _ _).trans (Digest.littleEndian_length _ _).symm)
  obtain ⟨bytes, more⟩ := List.append_inj rest (Digest.littleEndian_injective shortA shortB lengths)
  exact ⟨utf8_injective bytes, more⟩

/-- **Measured texts can be told apart.** -/
theorem measured_injective {as bs : List String} (short : ∀ a ∈ as, Short a)
    (short' : ∀ b ∈ bs, Short b) (count : as.length = bs.length)
    (same : as.flatMap measured = bs.flatMap measured) : as = bs := by
  induction as generalizing bs with
  | nil => exact (List.length_eq_zero_iff.mp count.symm).symm
  | cons a as ih =>
    cases bs with
    | nil => cases count
    | cons b bs =>
      obtain ⟨shortA, shortAs⟩ := List.forall_mem_cons.mp short
      obtain ⟨shortB, shortBs⟩ := List.forall_mem_cons.mp short'
      obtain ⟨rfl, rest⟩ := measured_append shortA shortB same
      rw [ih shortAs shortBs (Nat.succ.inj count) rest]

end StencilId

/-! ### Tables -/

namespace Name.Table

variable {β : Type} {mark : Char} {text : β → String}

/-- The names of a table and the texts of its values contain no mark that stands between them. -/
structure Legible (mark : Char) (text : β → String) (table : Table β) : Prop where
  names : ∀ name ∈ table.names, mark ∉ name.toList ∧ ',' ∉ name.toList
  texts : ∀ name value, table.get? name = some value → ',' ∉ (text value).toList

/-- The text of one entry. -/
def entryText (mark : Char) (text : β → String) (pair : String × β) : List Char :=
  pair.1.toList ++ mark :: (text pair.2).toList

theorem toList_render (table : Table β) :
    (table.render mark.toString text).toList =
      [','].intercalate (table.entries.map (entryText mark text)) := by
  unfold render
  rw [String.toList_intercalate, List.map_map]
  refine congrArg _ (List.map_congr_left fun pair _ => ?_)
  show (pair.1 ++ mark.toString ++ text pair.2).toList = _
  simp [entryText, String.toList_append]

/-- What stands before the first mark is determined, and so is the rest. -/
theorem split_at_mark {as bs xs ys : List Char} (plainA : mark ∉ as) (plainB : mark ∉ bs)
    (same : as ++ mark :: xs = bs ++ mark :: ys) : as = bs ∧ xs = ys := by
  induction as generalizing bs with
  | nil =>
    cases bs with
    | nil => exact ⟨rfl, (List.cons.inj same).2⟩
    | cons b bs => exact absurd (List.mem_cons.mpr (.inl (List.cons.inj same).1)) plainB
  | cons a as ih =>
    cases bs with
    | nil => exact absurd (List.mem_cons.mpr (.inl (List.cons.inj same).1.symm)) plainA
    | cons b bs =>
      obtain ⟨rfl, rest⟩ := List.cons.inj same
      obtain ⟨rfl, more⟩ := ih (fun there => plainA (List.mem_cons_of_mem _ there))
        (fun there => plainB (List.mem_cons_of_mem _ there)) rest
      exact ⟨rfl, more⟩

theorem entryText_injective {a b : String × β} (plainA : mark ∉ a.1.toList)
    (plainB : mark ∉ b.1.toList) (distinct : Function.Injective text)
    (same : entryText mark text a = entryText mark text b) : a = b := by
  obtain ⟨names, texts⟩ := split_at_mark plainA plainB same
  exact Prod.ext (String.toList_injective names) (distinct (String.toList_injective texts))

theorem entryText_ne_nil (pair : String × β) : entryText mark text pair ≠ [] := by
  unfold entryText
  exact List.append_ne_nil_of_right_ne_nil _ (List.cons_ne_nil _ _)

/-- No entry of a legible table contains a comma. -/
theorem Legible.comma {table : Table β} (legible : table.Legible mark text) (different : mark ≠ ',')
    {pair : String × β} (member : pair ∈ table.entries) : ',' ∉ entryText mark text pair := by
  obtain ⟨name, value⟩ := pair
  have found := mem_entries.mp member
  intro inside
  rcases List.mem_append.mp inside with inName | inRest
  · exact (legible.names name (mem_names.mpr ⟨value, found⟩)).2 inName
  · rcases List.mem_cons.mp inRest with isMark | inText
    · exact different isMark.symm
    · exact legible.texts name value found inText

/-- Phrases without commas, none of them empty, can be told apart between commas. -/
theorem intercalate_injective {as bs : List (List Char)} (plainA : ∀ a ∈ as, ',' ∉ a ∧ a ≠ [])
    (plainB : ∀ b ∈ bs, ',' ∉ b ∧ b ≠ [])
    (same : [','].intercalate as = [','].intercalate bs) : as = bs := by
  -- Split at commas, no phrases and one empty phrase look alike; nothing else does.
  have split : ∀ cs : List (List Char), (∀ c ∈ cs, ',' ∉ c ∧ c ≠ []) → cs ≠ [] →
      ([','].intercalate cs).splitOn ',' = cs := fun cs plain =>
    List.splitOn_intercalate ',' fun c member => (plain c member).1
  have ofNil : ∀ cs : List (List Char), (∀ c ∈ cs, ',' ∉ c ∧ c ≠ []) →
      [','].intercalate cs = [] → cs = [] := by
    intro cs plain empty
    by_contra some
    have whole := split cs plain some
    rw [empty] at whole
    have member : [] ∈ cs := whole ▸ List.mem_singleton_self _
    exact (plain [] member).2 rfl
  by_cases noneA : as = []
  · subst noneA
    exact (ofNil bs plainB same.symm).symm
  · have noneB : bs ≠ [] := by
      rintro rfl
      exact noneA (ofNil as plainA same)
    rw [← split as plainA noneA, same, split bs plainB noneB]

theorem eq_of_map_eq {α γ : Type} {f : α → γ} {as bs : List α}
    (injective : ∀ a ∈ as, ∀ b ∈ bs, f a = f b → a = b) (same : as.map f = bs.map f) : as = bs := by
  induction as generalizing bs with
  | nil => exact (List.map_eq_nil_iff.mp same.symm).symm
  | cons a as ih =>
    cases bs with
    | nil => cases same
    | cons b bs =>
      obtain ⟨first, rest⟩ := List.cons.inj same
      rw [injective a List.mem_cons_self b List.mem_cons_self first,
        ih (fun a inA b inB => injective a (List.mem_cons_of_mem _ inA) b
          (List.mem_cons_of_mem _ inB)) rest]

/-- **Tables with legible names have texts of their own**, as far as their values have. -/
theorem render_injective {a b : Table β} (different : mark ≠ ',') (legibleA : a.Legible mark text)
    (legibleB : b.Legible mark text) (distinct : Function.Injective text)
    (same : a.render mark.toString text = b.render mark.toString text) : a = b := by
  have texts : [','].intercalate (a.entries.map (entryText mark text)) =
      [','].intercalate (b.entries.map (entryText mark text)) := by
    rw [← toList_render, ← toList_render, same]
  have plain : ∀ {table : Table β}, table.Legible mark text →
      ∀ chars ∈ table.entries.map (entryText mark text), ',' ∉ chars ∧ chars ≠ [] := by
    intro table legible chars member
    obtain ⟨pair, inside, rfl⟩ := List.mem_map.mp member
    exact ⟨legible.comma different inside, entryText_ne_nil pair⟩
  have entries := intercalate_injective (plain legibleA) (plain legibleB) texts
  have unmarked : ∀ {table : Table β}, table.Legible mark text →
      ∀ pair ∈ table.entries, mark ∉ pair.1.toList := fun legible pair member =>
    (legible.names pair.1 (mem_names.mpr ⟨pair.2, mem_entries.mp member⟩)).1
  have same' : a.entries = b.entries := by
    refine eq_of_map_eq (fun x memberX y memberY => ?_) entries
    exact entryText_injective (unmarked legibleA x memberX) (unmarked legibleB y memberY) distinct
  obtain ⟨_, _⟩ := a
  obtain ⟨_, _⟩ := b
  cases same'
  rfl

end Name.Table

theorem ElementType.name_injective : Function.Injective ElementType.name := by
  intro a b same
  have found := (named?_name a).symm.trans ((congrArg named? same).trans (named?_name b))
  exact Option.some.inj found

/-! ### Constants -/

/-- A text without a comma. -/
def Whole (text : String) : Prop := ',' ∉ text.toList

namespace Whole

theorem append {a b : String} (first : Whole a) (second : Whole b) : Whole (a ++ b) := by
  unfold Whole
  rw [String.toList_append, List.mem_append]
  exact not_or.mpr ⟨first, second⟩

theorem ofList {cs : List Char} (plain : ',' ∉ cs) : Whole (String.ofList cs) := by
  unfold Whole
  rwa [String.toList_ofList]

theorem digits (n : Nat) : Whole (toString n) := by
  intro there
  have inside : ',' ∈ Nat.toDigits 10 n := by rwa [← Nat.toList_repr]
  have digit := Nat.isDigit_of_mem_toDigits (by decide) (by decide) inside
  exact absurd digit (by decide)

theorem ofInt (n : Int) : Whole (toString n) := by
  cases n with
  | ofNat n => exact digits n
  | negSucc n => exact append (show Whole "-" by unfold Whole; decide) (digits (n + 1))

theorem zeros (count : Nat) : ',' ∉ List.replicate count '0' := fun there =>
  absurd (List.eq_of_mem_replicate there) (by decide)

theorem pointed (n : Nat) (exponent : Int) : Whole (Number.pointed n exponent) := by
  unfold Number.pointed
  cases exponent with
  | ofNat count =>
    exact ((digits n).append (ofList (zeros count))).append (by unfold Whole; decide)
  | negSucc places =>
    have padded : ∀ count, ',' ∉ List.replicate count '0' ++ (toString n).toList := fun count =>
      fun there => (List.mem_append.mp there).elim (zeros count) (digits n)
    refine Whole.append (Whole.append (ofList fun there => ?_) (by unfold Whole; decide))
      (ofList fun there => ?_)
    · exact padded _ (List.mem_of_mem_take there)
    · exact padded _ (List.mem_of_mem_drop there)

theorem scientific (n : Nat) (exponent : Int) : Whole (Number.scientific n exponent) := by
  unfold Number.scientific
  refine Whole.append (Whole.append (Whole.append (ofList fun there => ?_) ?_) ?_) (ofInt _)
  · exact digits n (List.mem_of_mem_take there)
  · split
    · unfold Whole
      decide
    · exact Whole.append (by unfold Whole; decide)
        (ofList fun there => digits n (List.mem_of_mem_drop there))
  · unfold Whole
    decide

theorem double (x : Float) : Whole (Number.text x) := by
  have sign : ∀ negative : Bool, Whole (if negative then "-" else "") := by
    intro negative
    unfold Whole
    cases negative <;> decide
  unfold Number.text
  split
  · unfold Whole
    decide
  · split
    · unfold Whole
      decide
    · unfold Whole
      decide
  · dsimp only
    split
    · exact (sign _).append (by unfold Whole; decide)
    · refine (sign _).append ?_
      unfold Number.decimalText
      dsimp only
      split
      · exact pointed _ _
      · exact scientific _ _

/-- **No constant has a comma in its text.** -/
theorem literal (value : Literal) : Whole value.render := by
  cases value with
  | int n => exact ofInt n
  | float x => exact double x
  | bool b =>
    unfold Whole
    cases b <;> decide

theorem elementType (type : ElementType) : Whole type.name := by
  unfold Whole
  cases type <;> decide

end Whole

/-! ### Compilations -/

/-- Everything that a compilation depends on. -/
structure Compilation where
  definition : Definition
  externals : Externals
  backend : Backend
  signature : Signature

namespace Compilation

/-- The texts that stand for the inputs. -/
def texts (c : Compilation) : List String :=
  [c.definition.render, c.externals.render, c.backend.name, c.signature.render]

/-- The bytes that the digest is taken from. -/
def hashed (c : Compilation) : List UInt8 := c.texts.flatMap StencilId.measured

/-- What the compilation gives back. -/
def outcome (c : Compilation) : Except Error (Context × Kernel) :=
  (Registry.compile c.definition c.externals c.backend c.signature).value

/-- No name contains a mark that stands behind or between names, and all lengths fit. -/
structure Legible (c : Compilation) : Prop where
  name : '(' ∉ c.definition.name.toList
  externals : ∀ name ∈ c.externals.names, '=' ∉ name.toList ∧ ',' ∉ name.toList
  signature : ∀ name ∈ c.signature.names, ':' ∉ name.toList ∧ ',' ∉ name.toList
  short : ∀ text ∈ c.texts, StencilId.Short text

variable {c d : Compilation}

/-- The hashed bytes determine the four texts. -/
theorem hashed_texts (short : ∀ text ∈ c.texts, StencilId.Short text)
    (short' : ∀ text ∈ d.texts, StencilId.Short text) (same : c.hashed = d.hashed) :
    c.texts = d.texts :=
  StencilId.measured_injective short short' rfl same

/-- The name of a definition stands in front of its text, up to the first bracket. -/
theorem name_of_render {a b : Definition} (plainA : '(' ∉ a.name.toList)
    (plainB : '(' ∉ b.name.toList) (same : a.render = b.render) : a.name = b.name := by
  have front : ∀ d : Definition, ∃ rest : List Char,
      d.render.toList = "stencil ".toList ++ (d.name.toList ++ '(' :: rest) := by
    intro d
    refine ⟨(", ".intercalate d.parameterTexts ++ ") \x7b\n").toList ++
      (Text.unlines d.lines.tail).toList, ?_⟩
    show (String.join (d.lines.map (· ++ "\n"))).toList = _
    unfold Definition.lines Text.unlines
    simp [String.toList_join]
  obtain ⟨restA, textA⟩ := front a
  obtain ⟨restB, textB⟩ := front b
  rw [same, textB] at textA
  have names := (Name.Table.split_at_mark plainB plainA (List.append_cancel_left textA)).1
  exact (String.toList_injective names).symm

theorem backend_of_name {a b : Backend} (same : a.name = b.name) : a = b := by
  revert same
  cases a <;> cases b <;> decide

/-- **The hashed bytes determine all inputs but the definition, and its name.** -/
theorem hashed_inputs (legible : c.Legible) (legible' : d.Legible) (same : c.hashed = d.hashed) :
    c.definition.name = d.definition.name ∧ c.externals = d.externals ∧ c.backend = d.backend ∧
      c.signature = d.signature := by
  have texts := hashed_texts legible.short legible'.short same
  simp only [Compilation.texts, List.cons.injEq, and_true] at texts
  obtain ⟨definitions, externals, backends, signatures⟩ := texts
  refine ⟨name_of_render legible.name legible'.name definitions, ?_, backend_of_name backends, ?_⟩
  · exact Name.Table.render_injective (by decide)
      ⟨legible.externals, fun _ value _ => Whole.literal value⟩
      ⟨legible'.externals, fun _ value _ => Whole.literal value⟩
      Literal.render_injective externals
  · exact Name.Table.render_injective (by decide)
      ⟨legible.signature, fun _ type _ => Whole.elementType type⟩
      ⟨legible'.signature, fun _ type _ => Whole.elementType type⟩
      ElementType.name_injective signatures

end Compilation

end GridStencil
