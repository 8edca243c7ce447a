import GridStencil.Proofs.Definition.Legible.Stencil
import GridStencil.Proofs.Definition.RoundTrip
import GridStencil.Proofs.Spans

/-!
**The canonical text of a definition identifies it.**

A registry tells definitions apart by their canonical texts alone. Definitions that come from a
source can be written, and a double in them has no sign; if it is finite, it is written in digits.
Two such definitions with the same text are therefore the same up to spans
(`Definition.legible_definition`), and spans do not show in a kernel
(`Registry.compile_withoutSpans`).

A double that is too large for a finite one has the text of a name, which is why the doubles have to
be finite.

* `Definition.identified_by_text`: the texts of two definitions, and what they compile to.
-/

namespace GridStencil

/-- Definitions that are the same up to spans compile to the same kernel, or both to none. -/
theorem Registry.compile_of_sameWithoutSpans {d d' : Definition}
    (same : d.withoutSpans = d'.withoutSpans) (externals : Externals) (backend : Backend)
    (signature : Signature) :
    (compile d externals backend signature).value.toOption.map Prod.snd =
      (compile d' externals backend signature).value.toOption.map Prod.snd := by
  have bare : ∀ d : Definition,
      (compile d.withoutSpans externals backend signature).value.toOption.map Prod.snd =
        (compile d externals backend signature).value.toOption.map Prod.snd := fun d =>
    (compile_withoutSpans d externals backend signature).toOption_map_eq
  rw [← bare d, same, bare d']

namespace Definition

/-- A definition from a source can be told from its text if its doubles are finite. -/
theorem clear_of_readAll {source : Source} {definitions : List Definition}
    (read : readAll source = .ok definitions) {d : Definition} (member : d ∈ definitions)
    (finite : ∀ x ∈ d.floats, Finite x) : d.Clear := by
  obtain ⟨written, unsigned⟩ := clean_of_readAll read d member
  refine ⟨written, fun x inside => ?_⟩
  obtain ⟨negative, mantissa, exponent, form⟩ := finite x inside
  obtain rfl := Number.form_of_unsigned (unsigned x inside) form
  exact ⟨mantissa, exponent, form⟩

/-- **Two definitions with finite doubles that come from sources have the same canonical text
exactly if they are the same up to spans.** If a registry has the same fingerprint for both, they
compile to the same kernel, whatever the values of externals, the backend and the types, or both to
none. -/
theorem identified_by_text {source source' : Source} {definitions definitions' : List Definition}
    (read : readAll source = .ok definitions) (read' : readAll source' = .ok definitions')
    {d d' : Definition} (member : d ∈ definitions) (member' : d' ∈ definitions')
    (finite : ∀ x ∈ d.floats, Finite x) (finite' : ∀ x ∈ d'.floats, Finite x) :
    (d.render = d'.render ↔ d.withoutSpans = d'.withoutSpans) ∧
      ∀ (defaults defaults' externals : Externals) (backend : Backend)
        (signature : GridStencil.Signature),
        (Registration.ofDefinition d defaults).fingerprint =
          (Registration.ofDefinition d' defaults').fingerprint →
        (Registry.compile d externals backend signature).value.toOption.map Prod.snd =
          (Registry.compile d' externals backend signature).value.toOption.map Prod.snd := by
  have forth : d.render = d'.render → d.withoutSpans = d'.withoutSpans :=
    legible_definition (clear_of_readAll read member finite)
      (clear_of_readAll read' member' finite')
  refine ⟨⟨forth, fun same => ?_⟩, fun _ _ externals backend signature same => ?_⟩
  · rw [← render_withoutSpans d, same, render_withoutSpans d']
  · exact Registry.compile_of_sameWithoutSpans (forth same) externals backend signature

/-- A stencil in one layout. -/
def dense : String :=
  "stencil s(a: Field[f64]) \x7b with computation(PARALLEL), interval(...) \x7b a = -a**2*0.5 \x7d \x7d"

/-- The same stencil in another layout, with parentheses and its number written otherwise. -/
def spread : String :=
  "stencil s(a: Field[f64]) \x7b\n  with computation(PARALLEL) \x7b\n    interval(...) \x7b\n" ++
    "      a = -(a ** 2) * 5e-1\n    \x7d\n  \x7d\n\x7d\n"

/-- Whether two sources hold one definition each, with finite doubles and the same text, and the
first of them compiles. -/
def sameText (source source' : Source) : Bool :=
  match readAll source, readAll source' with
  | .ok [d], .ok [d'] =>
    decide ((∀ x ∈ d.floats, Finite x) ∧ (∀ x ∈ d'.floats, Finite x) ∧ d.render = d'.render ∧
      (Registry.compile d .empty .debug .empty).value.toOption.isSome)
  | _, _ => false

theorem sameText_layouts : sameText ⟨"", dense⟩ ⟨"", spread⟩ = true := by decide +kernel

/-- Two layouts of one stencil, which compile to the same kernel. -/
theorem identified_by_text_layouts : ∃ d d', readAll ⟨"", dense⟩ = .ok [d] ∧
    readAll ⟨"", spread⟩ = .ok [d'] ∧ (∀ x ∈ d.floats, Finite x) ∧
    (∀ x ∈ d'.floats, Finite x) ∧ d.render = d'.render ∧ d.withoutSpans = d'.withoutSpans ∧
    (Registry.compile d .empty .debug .empty).value.toOption.isSome ∧
    (Registry.compile d .empty .debug .empty).value.toOption.map Prod.snd =
      (Registry.compile d' .empty .debug .empty).value.toOption.map Prod.snd := by
  have all := sameText_layouts
  unfold sameText at all
  split at all
  next d d' read read' =>
    obtain ⟨finite, finite', texts, compiles⟩ := of_decide_eq_true all
    obtain ⟨identified, compiled⟩ := identified_by_text read read' List.mem_cons_self
      List.mem_cons_self finite finite'
    exact ⟨d, d', read, read', finite, finite', texts, identified.mp texts, compiles,
      compiled .empty .empty .empty .debug .empty texts⟩
  · cases all

end Definition

end GridStencil
