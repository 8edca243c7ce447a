import GridStencil.Proofs.Grammar.Lookahead

/-!
**Texts with the same tokens and more layout between them.**

`Layout` tells which texts are layout in front of anything: blanks, tabs, ends of lines, and
comments with the end of their line. `Spaced tokens text` says that a text is made of tokens with
layout around them, and `Loosened tokens text other` that another one is this text with layout put
in, at any place between two tokens, before the first and behind the last one. Such texts are near each other
(`Loosened.near`), both without the layout at their starts (`Loosened.skip`) and, if they start with
the same token, behind it (`Loosened.behind`).
-/

namespace GridStencil.Grammar

/-- Blanks, tabs, ends of lines, and comments up to the end of their line. -/
inductive Layout : List Char → Prop
  | nil : Layout []
  | blank {c : Char} {text : List Char} (layout : Cursor.isLayout c = true) (rest : Layout text) :
      Layout (c :: text)
  | comment {words text : List Char} {stop : Char}
      (inside : ∀ c ∈ words, Cursor.endsComment c = false)
      (ends : Cursor.endsComment stop = true) (rest : Layout text) :
      Layout ('#' :: (words ++ stop :: text))

/-- A text made of tokens with layout around them. Behind the last token, a comment may have no
end. -/
inductive Spaced : List (List Char) → List Char → Prop
  | last {gap : List Char} (layout : skip gap = []) : Spaced [] gap
  | next {gap token text : List Char} {tokens : List (List Char)} (layout : Layout gap)
      (rest : Spaced tokens text) : Spaced (token :: tokens) (gap ++ (token ++ text))

/-- What stands between two tokens, and the same with layout put in at some place. Behind the last
token, where a comment may have no end, the layout may also stand at the very end. -/
def Widened (gap wider : List Char) : Prop :=
  ∃ before inserted after, gap = before ++ after ∧ wider = before ++ (inserted ++ after) ∧
    Layout inserted ∧ (Layout before ∨ after = [])

/-- A text made of tokens with layout around them, and the same text with layout put in between the
tokens. -/
inductive Loosened : List (List Char) → List Char → List Char → Prop
  | last {gap wider : List Char} (layout : skip gap = []) (widened : Widened gap wider) :
      Loosened [] gap wider
  | next {gap wider token text other : List Char} {tokens : List (List Char)} (layout : Layout gap)
      (widened : Widened gap wider) (rest : Loosened tokens text other) :
      Loosened (token :: tokens) (gap ++ (token ++ text)) (wider ++ (token ++ other))

/-! ### Layout is skipped -/

theorem rest_skipFrom_comment {words : List Char} {stop : Char}
    (inside : ∀ c ∈ words, Cursor.endsComment c = false) (ends : Cursor.endsComment stop = true)
    (text : List Char) (offset : Nat) :
    (Cursor.skipFrom true (words ++ stop :: text) offset).rest = skip text := by
  induction words generalizing offset with
  | nil =>
    simp only [List.nil_append, Cursor.skipFrom, if_true, ends, Bool.not_true]
    exact Cursor.rest_skipFrom false text _ _
  | cons c cs ih =>
    simp only [List.cons_append, Cursor.skipFrom, if_true, inside c List.mem_cons_self,
      Bool.not_false]
    exact ih (fun d there => inside d (List.mem_cons_of_mem c there)) _

namespace Layout

variable {gap : List Char}

theorem skip_append (layout : Layout gap) (rest : List Char) : skip (gap ++ rest) = skip rest := by
  induction layout with
  | nil => rfl
  | blank layout _ ih => exact (skip_cons_layout layout _).trans ih
  | @comment words text stop inside ends _ ih =>
    rw [List.cons_append, List.append_assoc]
    exact (rest_skipFrom_comment inside ends (text ++ rest) _).trans ih

theorem skip_eq (layout : Layout gap) : skip gap = [] := by
  have skipped := layout.skip_append []
  rwa [List.append_nil] at skipped

/-- Layout that goes on with a comment is layout up to the end of the text. -/
theorem rest_skipFrom (layout : Layout gap) (inComment : Bool) (offset : Nat) :
    (Cursor.skipFrom inComment gap offset).rest = [] := by
  cases inComment with
  | false => exact (Cursor.rest_skipFrom false gap offset 0).trans layout.skip_eq
  | true =>
    induction layout generalizing offset with
    | nil => rfl
    | @blank c text _ rest ih =>
      simp only [Cursor.skipFrom, if_true]
      cases Cursor.endsComment c with
      | false => exact ih _
      | true => exact (Cursor.rest_skipFrom false text _ 0).trans rest.skip_eq
    | comment inside ends rest _ =>
      exact (rest_skipFrom_comment inside ends _ _).trans rest.skip_eq

theorem head (layout : Layout gap) : ∀ c, gap.head? = some c → isSolid c = false := by
  cases layout with
  | nil => rintro c ⟨⟩
  | blank layout rest =>
    rintro c ⟨⟩
    simp [isSolid, layout]
  | comment inside ends rest =>
    rintro c ⟨⟩
    rfl

end Layout

/-- Where all of a text is skipped, layout may follow. -/
theorem rest_skipFrom_append {inserted : List Char} (layout : Layout inserted)
    {inComment : Bool} {before : List Char} {offset : Nat}
    (skipped : (Cursor.skipFrom inComment before offset).rest = []) :
    (Cursor.skipFrom inComment (before ++ inserted) offset).rest = [] := by
  induction before generalizing inComment offset with
  | nil => exact layout.rest_skipFrom inComment offset
  | cons c cs ih =>
    rw [List.cons_append, Cursor.skipFrom]
    rw [Cursor.skipFrom] at skipped
    split at skipped
    · next begun =>
      rw [if_pos begun]
      exact ih skipped
    · next not_begun =>
      rw [if_neg not_begun]
      split at skipped
      · next blank =>
        rw [if_pos blank]
        exact ih skipped
      · next solid =>
        rw [if_neg solid]
        split at skipped
        · next begins =>
          rw [if_pos begins]
          exact ih skipped
        · cases skipped

theorem head_of_skip {gap : List Char} (skipped : skip gap = []) :
    ∀ c, gap.head? = some c → isSolid c = false := by
  intro c head
  cases gap with
  | nil => cases head
  | cons d cs =>
    obtain rfl : d = c := Option.some.inj head
    cases solid : isSolid d with
    | false => rfl
    | true =>
      rw [skip_cons_solid solid] at skipped
      cases skipped

/-- What is skipped in front of something is layout. In a comment, it is the rest of one. -/
theorem layout_skipFrom (inComment : Bool) (text : List Char) (offset : Nat) :
    (Cursor.skipFrom inComment text offset).rest = [] ∨
      ∃ gap, Layout (if inComment then '#' :: gap else gap) ∧
        text = gap ++ (Cursor.skipFrom inComment text offset).rest := by
  induction text generalizing inComment offset with
  | nil => exact .inl rfl
  | cons c cs ih =>
    rw [Cursor.skipFrom]
    split
    · next begun =>
      obtain rfl : inComment = true := begun
      cases ends : Cursor.endsComment c with
      | true =>
        refine (ih false _).imp id ?_
        rintro ⟨gap, layout, same⟩
        have empty : ∀ c ∈ ([] : List Char), Cursor.endsComment c = false := by rintro _ ⟨⟩
        exact ⟨c :: gap, .comment empty ends layout, congrArg (c :: ·) same⟩
      | false =>
        refine (ih true _).imp id ?_
        rintro ⟨gap, layout, same⟩
        refine ⟨c :: gap, ?_, congrArg (c :: ·) same⟩
        cases layout with
        | blank layout _ => cases layout
        | @comment words text stop inside stops rest =>
          have longer : ∀ d ∈ c :: words, Cursor.endsComment d = false :=
            List.forall_mem_cons.mpr ⟨ends, inside⟩
          exact .comment longer stops rest
    · next not_begun =>
      obtain rfl : inComment = false := by simpa using not_begun
      split
      · next blank =>
        refine (ih false _).imp id ?_
        rintro ⟨gap, layout, same⟩
        exact ⟨c :: gap, .blank blank layout, congrArg (c :: ·) same⟩
      · split
        · next begins =>
          subst begins
          refine (ih true _).imp id ?_
          rintro ⟨gap, layout, same⟩
          exact ⟨'#' :: gap, layout, congrArg ('#' :: ·) same⟩
        · exact .inr ⟨[], .nil, rfl⟩

/-- Layout is what is skipped up to a token that stands behind it. -/
theorem layout_iff {gap : List Char} : Layout gap ↔ skip (gap ++ ['|']) = ['|'] := by
  refine ⟨fun layout => layout.skip_append ['|'], fun skipped => ?_⟩
  have rest : (Cursor.skipFrom false (gap ++ ['|']) 0).rest = ['|'] := skipped
  rcases layout_skipFrom false (gap ++ ['|']) 0 with none_left | ⟨front, layout, same⟩
  · cases rest.symm.trans none_left
  · rw [rest] at same
    rwa [List.append_cancel_right same]

instance (gap : List Char) : Decidable (Layout gap) := decidable_of_iff _ layout_iff.symm

/-- A text that is spaced behind the layout at its start is spaced. -/
theorem Spaced.of_skip {tokens : List (List Char)} {text : List Char}
    (spaced : Spaced tokens (skip text)) (solid : ∀ token ∈ tokens, Solid token) :
    Spaced tokens text := by
  generalize same : skip text = input at spaced
  cases spaced with
  | last layout =>
    subst same
    rw [skip_skip] at layout
    exact .last layout
  | @next gap token behind tokens layout rest =>
    have first := solid token List.mem_cons_self
    have skipped : skip text = token ++ behind := by
      rw [← skip_skip, same, layout.skip_append, first.skip]
    rcases layout_skipFrom false text 0 with none_left | ⟨front, front_layout, text_eq⟩
    · obtain ⟨c, cs, rfl, -⟩ := first
      cases skipped.symm.trans none_left
    · rw [text_eq, show (Cursor.skipFrom false text 0).rest = token ++ behind from skipped]
      exact .next front_layout rest

/-! ### Widened gaps -/

namespace Widened

variable {gap wider : List Char}

theorem skip_append (widened : Widened gap wider) (layout : Layout gap) (rest : List Char) :
    skip (wider ++ rest) = skip (gap ++ rest) := by
  obtain ⟨before, inserted, after, rfl, rfl, inserted_layout, place⟩ := widened
  have before_layout : Layout before := by
    rcases place with before_layout | rfl
    · exact before_layout
    · rwa [List.append_nil] at layout
  simp only [List.append_assoc, before_layout.skip_append, inserted_layout.skip_append]

/-- Layout behind the last token stays layout. -/
theorem skip_eq (widened : Widened gap wider) (layout : skip gap = []) : skip wider = [] := by
  obtain ⟨before, inserted, after, rfl, rfl, inserted_layout, before_layout | rfl⟩ := widened
  · rw [before_layout.skip_append] at layout
    rw [before_layout.skip_append, inserted_layout.skip_append, layout]
  · rw [List.append_nil] at layout ⊢
    exact rest_skipFrom_append inserted_layout layout

/-- A wider gap starts with layout, or both are empty. -/
theorem head (widened : Widened gap wider)
    (layout : ∀ c, gap.head? = some c → isSolid c = false) :
    ∀ c, wider.head? = some c → isSolid c = false := by
  obtain ⟨before, inserted, after, rfl, rfl, inserted_layout, -⟩ := widened
  cases before with
  | cons d ds => exact layout
  | nil =>
    cases inserted with
    | cons d ds => exact inserted_layout.head
    | nil => exact layout

theorem eq_nil (widened : Widened gap []) : gap = [] := by
  obtain ⟨before, inserted, after, rfl, none_there, -⟩ := widened
  simp_all

theorem nil : Widened [] [] := ⟨[], [], [], rfl, rfl, .nil, .inr rfl⟩

end Widened

/-! ### Loosened texts -/

namespace Loosened

variable {tokens : List (List Char)} {token text other : List Char}

/-- Up to where layout is put in, the texts are the same. -/
theorem near (loosened : Loosened tokens text other) : Near text other := by
  induction loosened with
  | @last gap wider layout widened =>
    exact ⟨[], gap, wider, rfl, rfl, widened.head (head_of_skip layout)⟩
  | @next gap wider token text other tokens layout widened rest ih =>
    cases wider with
    | cons c cs =>
      exact ⟨[], _, _, rfl, rfl, widened.head layout.head⟩
    | nil =>
      obtain rfl := widened.eq_nil
      exact ih.append token

/-- The layout before the first token may be dropped. -/
theorem skip (loosened : Loosened tokens text other) (solid : ∀ token ∈ tokens, Solid token) :
    Loosened tokens (skip text) (skip other) := by
  cases loosened with
  | last layout widened =>
    rw [layout, widened.skip_eq layout]
    exact .last rfl .nil
  | @next gap wider token text other tokens layout widened rest =>
    have first := solid token List.mem_cons_self
    rw [layout.skip_append, first.skip, widened.skip_append layout, layout.skip_append, first.skip]
    exact .next .nil .nil rest

/-- Behind a token that both texts start with, they are loosened as well. -/
theorem behind (loosened : Loosened (token :: tokens) text other) (solid : Solid token)
    (skipped : Grammar.skip text = text) (skipped' : Grammar.skip other = other) :
    ∃ rest rest', text = token ++ rest ∧ other = token ++ rest' ∧ Loosened tokens rest rest' := by
  cases loosened with
  | @next gap wider _ rest rest' _ layout widened loosened =>
    rw [layout.skip_append, solid.skip] at skipped
    rw [widened.skip_append layout, layout.skip_append, solid.skip] at skipped'
    obtain rfl := List.self_eq_append_left.mp skipped
    obtain rfl := List.self_eq_append_left.mp skipped'
    exact ⟨rest, rest', rfl, rfl, loosened⟩

end Loosened

end GridStencil.Grammar
