import GridStencil.Proofs.Halo

/-!
**The two backends are equivalent.**

For one context, the kernels of both backends have the same interface, and their tasks do the same
jobs in the same order (`Schedule.tasks_doneBy`). Each job succeeds with both or with neither, and
leaves the same frame (`Schedule.runTask_agree`), so whole runs do.
-/

namespace GridStencil.Kernel

/-- A kernel exists for every backend or for none. -/
theorem ofContext?_isOk (backend other : Backend) {context : Context}
    (made : ∃ kernel, ofContext? backend context = .ok kernel) :
    ∃ kernel, ofContext? other context = .ok kernel := by
  obtain ⟨kernel, made⟩ := made
  unfold ofContext? at made ⊢
  obtain ⟨interface, face, made⟩ := Steps.bind_eq_ok.mp made
  obtain ⟨demand, required, made⟩ := Steps.bind_eq_ok.mp made
  obtain ⟨schedule, scheduled, -⟩ := Steps.bind_eq_ok.mp made
  obtain ⟨schedule', scheduled'⟩ :=
    Schedule.ofProgram?_isOk backend other interface context.program demand ⟨schedule, scheduled⟩
  refine ⟨⟨other, interface, schedule'⟩, Steps.bind_eq_ok.mpr ⟨interface, face, ?_⟩⟩
  refine Steps.bind_eq_ok.mpr ⟨demand, required, ?_⟩
  exact Steps.bind_eq_ok.mpr ⟨schedule', scheduled', rfl⟩

/-- **Two kernels of one context** give the same buffers back for every call, and fail together. -/
theorem run_agree {context : Context} {backend backend' : Backend} {kernel other : Kernel}
    (made : ofContext? backend context = .ok kernel)
    (made' : ofContext? backend' context = .ok other) (call : Call) :
    (kernel.run call).1 = (other.run call).1 ∧
      ((kernel.run call).2 = none ↔ (other.run call).2 = none) := by
  obtain ⟨demand, known, face, scheduled⟩ := ofContext?_eq_ok made
  obtain ⟨demand', known', face', scheduled'⟩ := ofContext?_eq_ok made'
  obtain rfl : demand = demand' := Option.some.inj (known.symm.trans known')
  have sameFace : kernel.interface = other.interface := Except.ok.inj (face.symm.trans face')
  unfold run
  rw [← sameFace]
  cases passed : call.bind kernel.interface with
  | error cause => exact ⟨rfl, Iff.rfl⟩
  | ok bound =>
    have agree := Schedule.runTasks_agree (Frame.ofBound_serves passed).point
      (Schedule.tasks_doneBy scheduled call.domain)
      (sameFace ▸ Schedule.tasks_doneBy scheduled' call.domain)
    refine ⟨congrArg (fun frame => returned bound.fields frame.views call.arguments) agree.1, ?_⟩
    dsimp only
    rw [Option.map_eq_none_iff, Option.map_eq_none_iff]
    exact agree.2

/-- **The backends are equivalent.** For every context, both make a kernel or neither does; and if
they do, every call succeeds with both kernels or with neither and gives the same buffers back in
any case. If the context comes from the plan `all`, whatever fails once the call is bound fails for
the order of the planes, with both kernels. -/
theorem backends_equivalent (context : Context) :
    ((∃ kernel, ofContext? .debug context = .ok kernel) ↔
      ∃ kernel, ofContext? .vector context = .ok kernel) ∧
    ∀ debug vector, ofContext? .debug context = .ok debug →
      ofContext? .vector context = .ok vector →
      (∀ call, (debug.run call).1 = (vector.run call).1 ∧
        ((debug.run call).2 = none ↔ (vector.run call).2 = none)) ∧
      ∀ definition externals signature start,
        Context.ofDefinition? definition externals signature = .ok start →
        (PassTable.standard.run start ["all"] []).failure = none →
        (PassTable.standard.run start ["all"] []).context = context →
        ∀ call bound, call.bind debug.interface = .ok bound → call.Exact debug.interface →
          ∀ error, (debug.run call).2 = some error ∨ (vector.run call).2 = some error →
            error.kind = .ordering := by
  refine ⟨⟨ofContext?_isOk .debug .vector, ofContext?_isOk .vector .debug⟩,
    fun debug vector made made' => ⟨run_agree made made', ?_⟩⟩
  intro definition externals signature start built passed same call bound isBound exact error failed
  have planned : context.Planned := same ▸ PassTable.run_all_planned built passed
  have sameFace : debug.interface = vector.interface := by
    obtain ⟨_, _, face, _⟩ := ofContext?_eq_ok made
    obtain ⟨_, _, face', _⟩ := ofContext?_eq_ok made'
    exact Except.ok.inj (face.symm.trans face')
  rcases failed with withDebug | withVector
  · obtain ⟨_, _, _, _, rfl⟩ := run_fails_for_plane planned made isBound exact withDebug
    rfl
  · obtain ⟨_, _, _, _, rfl⟩ := run_fails_for_plane planned made' (sameFace ▸ isBound)
      (sameFace ▸ exact) withVector
    rfl

/-- Two runs that fail for the order of the planes. -/
theorem backends_equivalent_gap : ∃ (debug vector : Kernel),
    (debug.run Sample.call).1 = (vector.run Sample.call).1 ∧
    ∃ error, (debug.run Sample.call).2 = some error ∧ error.kind = .ordering := by
  obtain ⟨context, debug, bound, compiled, passed, exact, fails, -⟩ :=
    Sample.of_runs (Sample.runs_gap .debug)
  obtain ⟨⟨start, built, clean, same⟩, made⟩ := Registry.compile_eq_ok_iff.mp compiled
  obtain ⟨vector, made'⟩ := (backends_equivalent context).1.mp ⟨debug, made⟩
  obtain ⟨agree, ordering⟩ := (backends_equivalent context).2 debug vector made made'
  obtain ⟨error, failed⟩ := Option.isSome_iff_exists.mp (Option.isNone_eq_false_iff.mp fails)
  exact ⟨debug, vector, (agree _).1, error, failed, ordering _ _ _ start built clean same _ bound
    passed exact error (.inl failed)⟩

end GridStencil.Kernel
