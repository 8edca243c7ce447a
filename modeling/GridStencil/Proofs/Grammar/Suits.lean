import GridStencil.Proofs.Grammar.Starts
import GridStencil.Proofs.Grammar.Trees

/-!
**Phrases that suit what stands behind them.**

Tokens suit everything, and a token that fails in front of a text fails in front of a near one
(`Phrase.transfers_rule`), so a choice that tries tokens first suits what its last phrase suits
(`Phrase.Suits.tokens_or`). What has to be shown for the other phrases of a grammar is that they do
not match in front of the phrases that follow them; `Phrase.StartsOn` tells those apart by their
first characters.
-/

namespace GridStencil.Grammar

/-- Whether a pattern that fails in front of a text fails in front of all near ones. -/
def Pattern.lasts (p : Pattern) : Bool := p.rises && p.avoidsLayout

/-- Whether a rule is a token that fails in front of all texts near to one where it fails. -/
def Rule.lasts (r : Rule) : Bool :=
  match r.body with
  | .token pattern => pattern.lasts
  | .phrase _ => false

theorem Rule.token_of_lasts {r : Rule} (lasts : r.lasts = true) :
    ∃ pattern, r.body = .token pattern := by
  unfold Rule.lasts at lasts
  split at lasts
  · exact ⟨_, ‹_›⟩
  · cases lasts

namespace Phrase

variable {p first second item : Phrase} {r : Rule} {pattern : Pattern}
  {input other rest rest' taken : List Char} {behind : Pairs} {follow : Rule → Pairs}
  {meaning : List Node → Prop} {c : Char} {more : List Char} {w : String}

/-! ### Failing in front of near texts -/

theorem Rejects.split_none (rejects : (Phrase.token pattern).Rejects input) :
    pattern.split input = none :=
  Option.map_eq_none_iff.mp (gives_token.unique (rejects ⟨input, 0⟩ rfl))

theorem Rejects.split_none_rule (is_body : r.body = .token pattern)
    (rejects : (Phrase.rule r).Rejects input) : pattern.split input = none :=
  Option.map_eq_none_iff.mp ((gives_rule_token is_body).unique (rejects ⟨input, 0⟩ rfl))

theorem Rejects.not_yields (rejects : p.Rejects input) : ¬ p.Yields input rest meaning := by
  intro yields
  obtain ⟨found, gives, -⟩ := yields ⟨input, 0⟩ rfl
  cases gives.unique (rejects ⟨input, 0⟩ rfl)

theorem transfers_token (lasts : pattern.lasts = true) (near : Near input other) :
    (token pattern).Transfers input other := by
  simp only [Pattern.lasts, Bool.and_eq_true] at lasts
  exact fun rejects =>
    .token (Pattern.split_none_of_near lasts.1 lasts.2 near rejects.split_none)

theorem transfers_rule (lasts : r.lasts = true) (near : Near input other) :
    (rule r).Transfers input other := by
  unfold Rule.lasts at lasts
  split at lasts
  · next pattern is_body =>
    simp only [Pattern.lasts, Bool.and_eq_true] at lasts
    exact fun rejects => .rule_token is_body
      (Pattern.split_none_of_near lasts.1 lasts.2 near (rejects.split_none_rule is_body))
  · cases lasts

theorem transfers_of_rejects (rejects : p.Rejects other) : p.Transfers input other :=
  fun _ => rejects

/-! ### Phrases that suit everything -/

namespace Suits

theorem text (w : String) (solid : (Pattern.text w).avoidsLayout = true) :
    (Phrase.text w).Suits follow behind :=
  Pattern.steady_of_cuts rfl solid

theorem text_seq (solid : (Pattern.text w).avoidsLayout = true) (suits : p.Suits follow behind) :
    (Phrase.seq (.text w) p).Suits follow behind :=
  ⟨text w solid, suits⟩

/-- A rule of which nothing has to be known suits everything. -/
theorem rule_seq (free : ∀ input other, follow r input other) (suits : p.Suits follow behind) :
    (Phrase.seq (.rule r) p).Suits follow behind :=
  ⟨fun _ _ _ _ => free _ _, suits⟩

/-- Tokens of which nothing has to be known may be tried before a phrase. -/
theorem tokens_or (rs : List Rule)
    (free : ∀ {r pattern}, r.body = .token pattern → ∀ input other, follow r input other)
    (lasts : rs.all Rule.lasts = true) (suits : p.Suits follow behind) :
    (rs.foldr (fun r q => Phrase.alt (.rule r) q) p).Suits follow behind := by
  induction rs with
  | nil => exact suits
  | cons r rs ih =>
    obtain ⟨here, more⟩ := Bool.and_eq_true_iff.mp (List.all_cons.symm.trans lasts)
    obtain ⟨pattern, is_body⟩ := Rule.token_of_lasts here
    exact ⟨fun _ _ _ _ => free is_body _ _, ih more,
      fun _ _ aligned _ => transfers_rule here aligned.near⟩

/-- A mark may be left out. -/
theorem optional_text (w : String) (lasts : (Pattern.text w).lasts = true) :
    (Phrase.optional (.text w)).Suits follow behind := by
  have solid : (Pattern.text w).avoidsLayout = true := (Bool.and_eq_true_iff.mp lasts).2
  exact ⟨text w solid, fun _ _ aligned _ => transfers_token lasts aligned.near⟩

end Suits

/-! ### First characters -/

theorem StartsOn.head_ne (startsOn : p.StartsOn input) (outside : p.starts c = false) :
    input.head? ≠ some c := by
  rintro head
  obtain ⟨d, ds, rfl, starts⟩ := startsOn
  obtain rfl : d = c := Option.some.inj head
  rw [outside] at starts
  cases starts

/-- A phrase does not match in front of a character that it does not start with. -/
theorem Rejects.of_head (progresses : p.Progresses) (takes : p.nullable = false)
    (skipped : skip input = input) (head : input.head? = some c) (outside : p.starts c = false) :
    p.Rejects input := by
  refine .of_starts progresses takes skipped fun startsOn => ?_
  exact startsOn.head_ne outside head

/-- A word does not match in front of another character. -/
theorem Rejects.text_of_head (chars : w.toList = c :: more) {d : Char}
    (head : input.head? = some d) (differs : d ≠ c) : (Phrase.text w).Rejects input :=
  .text chars fun same => differs (Option.some.inj (head.symm.trans same))

theorem Opens.text (opens : (Phrase.text w).Opens behind input other)
    (chars : w.toList = c :: more) :
    ∃ rest rest', input = c :: (more ++ rest) ∧ other = c :: (more ++ rest') ∧
      behind (skip rest) (skip rest') := by
  obtain ⟨taken, rest, rest', split, split', known⟩ := opens.token
  have parts := Pattern.eq_of_split_text split
  have parts' := Pattern.eq_of_split_text split'
  rw [chars] at parts parts'
  exact ⟨rest, rest', parts, parts', known⟩

theorem Opens.text_head (opens : (Phrase.text w).Opens behind input other)
    (chars : w.toList = c :: more) : other.head? = some c := by
  obtain ⟨rest, rest', -, rfl, -⟩ := opens.text chars
  rfl

end Phrase

end GridStencil.Grammar
