import GridStencil.Proofs.Kernel.Jobs

/-!
**What a call that was bound has promised.**

Every parameter has a buffer of its own among the arguments, of its type, writable if it is an
output, and large enough for the domain and the padding around it. The views of a run inherit this:
`View.Serves` says what the view of a field is like before and during a run, whether the field is a
parameter or a temporary.

* `Call.bind_boundTo`, `Call.bind_distinct`: what `bind` checks.
* `Frame.ofBound_serves`: the views at the start of a run.
-/

namespace GridStencil

namespace Call

/-! ### Arguments find their parameters -/

/-- The numbers of the buffers in some slots. -/
def numbers (slots : Slots) : List Nat := slots.filterMap fun slot => slot.map Prod.fst

theorem mem_positional {call : Call} {n : Nat} {argument : Argument}
    (member : (n, argument) ∈ call.positional) :
    call.arguments[n]? = some argument ∧ argument.name = none := by
  unfold positional at member
  obtain ⟨⟨other, index⟩, there, kept⟩ := List.mem_filterMap.mp member
  simp only at kept
  split at kept
  next anonymous =>
    cases kept
    exact ⟨List.mk_mem_zipIdx_iff_getElem?.mp there, Option.isNone_iff_eq_none.mp anonymous⟩
  · cases kept

theorem mem_keywords {call : Call} {name : String} {n : Nat} {argument : Argument}
    (member : (name, n, argument) ∈ call.keywords) :
    call.arguments[n]? = some argument ∧ argument.name = some name := by
  unfold keywords at member
  obtain ⟨⟨other, index⟩, there, kept⟩ := List.mem_filterMap.mp member
  obtain ⟨word, named, same⟩ := Option.map_eq_some_iff.mp kept
  cases same
  exact ⟨List.mk_mem_zipIdx_iff_getElem?.mp there, named⟩

/-- Among arguments with their numbers, those that are picked have different numbers. -/
theorem nodup_picked {α β : Type} (f : α × Nat → Option β) (number : β → Nat)
    (kept : ∀ pair picked, f pair = some picked → number picked = pair.2) (items : List α)
    (n : Nat) :
    (((items.zipIdx n).filterMap f).map number).Nodup := by
  induction items generalizing n with
  | nil => exact List.nodup_nil
  | cons item rest ih =>
    rw [List.zipIdx_cons, List.filterMap_cons]
    split
    · exact ih (n + 1)
    next picked found =>
      rw [List.map_cons, List.nodup_cons]
      refine ⟨fun again => ?_, ih (n + 1)⟩
      obtain ⟨other, member, same⟩ := List.mem_map.mp again
      obtain ⟨pair, pairMember, found'⟩ := List.mem_filterMap.mp member
      have above := List.le_snd_of_mem_zipIdx pairMember
      rw [kept _ _ found', kept _ _ found] at same
      simp only at same
      omega

/-- No argument is passed both by position and by name, and none twice. -/
theorem nodup_given (call : Call) :
    (call.positional.map Prod.fst ++ call.keywords.map (·.2.1)).Nodup := by
  rw [List.nodup_append]
  refine ⟨?_, ?_, ?_⟩
  · refine nodup_picked _ _ (fun pair picked found => ?_) _ _
    simp only at found
    split at found
    · cases found
      rfl
    · cases found
  · refine nodup_picked _ (fun keyword : String × Nat × Argument => keyword.2.1)
      (fun pair picked found => ?_) _ _
    obtain ⟨word, -, same⟩ := Option.map_eq_some_iff.mp found
    cases same
    rfl
  · rintro n first m second rfl
    obtain ⟨⟨_, argument⟩, there, rfl⟩ := List.mem_map.mp first
    obtain ⟨⟨name, m, argument'⟩, there', same⟩ := List.mem_map.mp second
    simp only at same
    subst same
    obtain ⟨found, anonymous⟩ := mem_positional there
    obtain ⟨found', named⟩ := mem_keywords there'
    rw [found, Option.some.injEq] at found'
    subst found'
    rw [anonymous] at named
    cases named

/-- Slots that hold arguments of a call, each at most once, and none of those still to come. -/
structure Filled (call : Call) (count : Nat) (slots : Slots)
    (later : List (String × Nat × Argument)) : Prop where
  length : slots.length = count
  known : ∀ n argument, some (n, argument) ∈ slots → call.arguments[n]? = some argument
  coming : ∀ keyword ∈ later, call.arguments[keyword.2.1]? = some keyword.2.2
  distinct : (numbers slots ++ later.map (·.2.1)).Nodup

theorem filled_firstSlots (call : Call) {count : Nat} (enough : call.positional.length ≤ count) :
    Filled call count (firstSlots count call.positional) call.keywords where
  length := by
    unfold firstSlots
    rw [List.length_append, List.length_take, List.length_map, List.length_replicate]
    omega
  known n argument member := by
    unfold firstSlots at member
    rcases List.mem_append.mp member with early | late
    · obtain ⟨pair, there, same⟩ := List.mem_map.mp (List.mem_of_mem_take early)
      cases same
      exact (mem_positional there).1
    · cases List.eq_of_mem_replicate late
  coming := by
    rintro ⟨name, n, argument⟩ member
    exact (mem_keywords member).1
  distinct := by
    have same : numbers (firstSlots count call.positional) = call.positional.map Prod.fst := by
      unfold numbers firstSlots
      rw [List.filterMap_append, List.take_of_length_le (by rw [List.length_map]; exact enough),
        List.filterMap_map, List.filterMap_replicate_of_none rfl, List.append_nil]
      show List.filterMap (some ∘ Prod.fst) call.positional = _
      rw [List.filterMap_eq_map]
    rw [same]
    exact nodup_given call

theorem numbers_set {slots : Slots} {slot : Nat} (n : Nat) (argument : Argument)
    (inside : slot < slots.length) (vacant : slots[slot] = none) :
    (numbers (slots.set slot (some (n, argument)))).Perm (n :: numbers slots) := by
  unfold numbers
  induction slots generalizing slot with
  | nil => cases inside
  | cons first rest ih =>
    cases slot with
    | zero =>
      rw [List.getElem_cons_zero] at vacant
      subst vacant
      exact .refl _
    | succ slot =>
      rw [List.getElem_cons_succ] at vacant
      rw [List.set_cons_succ]
      have tail := ih (by simpa using inside) vacant
      cases first with
      | none => exact tail
      | some pair => exact (tail.cons _).trans (.swap _ _ _)

/-- Putting a named argument into its slot. -/
theorem filled_place {call : Call} {interface : Interface} {count : Nat} {slots after : Slots}
    {keyword : String × Nat × Argument} {later : List (String × Nat × Argument)}
    (filled : Filled call count slots (keyword :: later))
    (placed : place interface slots keyword = .ok after) : Filled call count after later := by
  obtain ⟨name, n, argument⟩ := keyword
  unfold place at placed
  simp only at placed
  split at placed
  · cases placed
  next slot found =>
    split at placed
    · cases placed
    next vacant =>
      cases placed
      by_cases inside : slot < slots.length
      · have free : slots[slot] = none := by
          simpa [List.getElem?_eq_getElem inside] using vacant
        refine ⟨by rw [List.length_set, filled.length], fun m other member => ?_,
          fun other member => filled.coming other (List.mem_cons_of_mem _ member), ?_⟩
        · rcases List.mem_or_eq_of_mem_set member with old | new
          · exact filled.known m other old
          · cases new
            exact filled.coming _ List.mem_cons_self
        · have perm := (numbers_set n argument inside free).append_right
            (later.map (·.2.1))
          rw [perm.nodup_iff]
          exact (List.perm_middle.nodup_iff).mp filled.distinct
      · rw [List.set_eq_of_length_le (by omega)]
        refine ⟨filled.length, filled.known,
          fun other member => filled.coming other (List.mem_cons_of_mem _ member), ?_⟩
        exact (List.nodup_cons.mp ((List.perm_middle.nodup_iff).mp filled.distinct)).2

theorem filled_foldlM {call : Call} {interface : Interface} {count : Nat} {slots after : Slots}
    {keywords : List (String × Nat × Argument)} (filled : Filled call count slots keywords)
    (placed : keywords.foldlM (place interface) slots = .ok after) :
    Filled call count after [] := by
  induction keywords generalizing slots with
  | nil =>
    cases placed
    exact filled
  | cons keyword later ih =>
    rw [List.foldlM_cons] at placed
    obtain ⟨next, here, rest⟩ := Steps.bind_eq_ok.mp placed
    exact ih (filled_place filled here) rest

/-! ### What is checked of a buffer -/

/-- The buffer covers the domain and the padding around it along an axis. -/
structure CoversAxis (padding : Padding) (size origin domain : Nat) : Prop where
  below : padding.below ≤ origin
  above : origin + domain + padding.above ≤ size

/-- A buffer covers the domain and the padding around it. -/
structure Covers (halo : Halo) (shape origin domain : PerAxis Nat) : Prop where
  i : CoversAxis halo.i shape.i origin.i domain.i
  j : CoversAxis halo.j shape.j origin.j domain.j
  k : CoversAxis halo.k shape.k origin.k domain.k

theorem checkAxis_eq_ok {name : String} {axis : Axis} {padding : Padding}
    {size origin domain : Nat} (passed : checkAxis name axis padding size origin domain = .ok ()) :
    CoversAxis padding size origin domain := by
  unfold checkAxis at passed
  split at passed
  · cases passed
  · split at passed
    · cases passed
    · split at passed
      · cases passed
      · exact ⟨by omega, by omega⟩

theorem checkHalo_eq_ok {field : InterfaceField} {shape origin domain : PerAxis Nat}
    (passed : checkHalo field shape origin domain = .ok ()) :
    Covers field.halo shape origin domain := by
  unfold checkHalo at passed
  obtain ⟨_, passedI, passed⟩ := Steps.bind_eq_ok.mp passed
  obtain ⟨_, passedJ, passedK⟩ := Steps.bind_eq_ok.mp passed
  exact ⟨checkAxis_eq_ok passedI, checkAxis_eq_ok passedJ, checkAxis_eq_ok passedK⟩

/-- What is known of the buffer bound to a parameter. -/
structure BoundTo (call : Call) (field : InterfaceField) (bound : BoundField) : Prop where
  argument : ∃ argument, call.arguments[bound.argument]? = some argument ∧
    argument.storage = bound.storage
  type : bound.storage.type = field.type
  writable : field.role = .output → bound.writable = true
  origin : bound.origin = call.origins.of field.name
  point : field.dimensions = .zero → bound.storage.shape = Storage.pointShape
  covers : field.dimensions = .ijk →
    Covers field.halo bound.storage.shape bound.origin call.domain

theorem bindField_eq_ok {call : Call} {stencil : String} {field : InterfaceField}
    {slot : Option (Nat × Argument)} {bound : BoundField}
    (known : ∀ n argument, slot = some (n, argument) → call.arguments[n]? = some argument)
    (passed : bindField stencil call field slot = .ok bound) :
    BoundTo call field bound ∧ slot.map Prod.fst = some bound.argument := by
  unfold bindField at passed
  cases slot with
  | none => cases passed
  | some pair =>
    obtain ⟨n, argument⟩ := pair
    have there := known n argument rfl
    simp only at passed
    split at passed
    · cases passed
    next sameType =>
      split at passed
      · cases passed
      next permitted =>
        have writable : field.role = .output → argument.writable = true := by
          intro output
          exact (Bool.not_eq_false _).mp fun absurd => permitted ⟨output, absurd⟩
        split at passed
        next zero =>
          split at passed
          next point =>
            cases passed
            refine ⟨⟨⟨argument, there, rfl⟩, not_not.mp sameType, writable, rfl, fun _ => point,
              ?_⟩, rfl⟩
            rw [zero]
            exact fun absurd => (nomatch absurd)
          · cases passed
        next full =>
          obtain ⟨_, halo, same⟩ := Steps.bind_eq_ok.mp passed
          cases same
          refine ⟨⟨⟨argument, there, rfl⟩, not_not.mp sameType, writable, rfl, ?_, ?_⟩, rfl⟩
          · rw [full]
            exact fun absurd => (nomatch absurd)
          · exact fun _ => checkHalo_eq_ok halo

/-- The buffers bound to some parameters, one by one. -/
theorem bindFields_boundTo {call : Call} {interface : Interface} {fields : List BoundField}
    (passed : bindFields interface call = .ok fields) :
    List.Forall₂ (BoundTo call) interface.parameters fields ∧
      (fields.map BoundField.argument).Nodup := by
  unfold bindFields at passed
  simp only at passed
  split at passed
  · cases passed
  next enough =>
    obtain ⟨slots, placed, bound⟩ := Steps.bind_eq_ok.mp passed
    have filled := filled_foldlM (filled_firstSlots call (by omega)) placed
    have related := Steps.mapM_eq_ok.mp bound
    have distinct := filled.distinct
    rw [List.map_nil, List.append_nil] at distinct
    have known := filled.known
    have length : slots.length = interface.parameters.length := filled.length
    clear filled placed passed bound enough
    suffices both : List.Forall₂ (BoundTo call) interface.parameters fields ∧
        numbers slots = fields.map BoundField.argument from ⟨both.1, both.2 ▸ distinct⟩
    clear distinct
    generalize interface.parameters = parameters at length related ⊢
    induction parameters generalizing slots fields with
    | nil =>
      rw [List.length_nil, List.length_eq_zero_iff] at length
      subst length
      cases related
      exact ⟨.nil, rfl⟩
    | cons field rest ih =>
      cases slots with
      | nil => cases length
      | cons slot slots =>
        rw [List.zip_cons_cons] at related
        cases related with
        | @cons _ first _ fields here more =>
          obtain ⟨boundTo, number⟩ := bindField_eq_ok
            (fun n argument same => known n argument (same ▸ List.mem_cons_self)) here
          obtain ⟨boundTos, numbers⟩ := ih slots
            (fun n argument member => known n argument (List.mem_cons_of_mem _ member))
            (Nat.succ.inj length) more
          refine ⟨.cons boundTo boundTos, ?_⟩
          unfold Call.numbers at numbers ⊢
          rw [List.filterMap_cons_some number, numbers, List.map_cons]

variable {call : Call} {interface : Interface} {bound : BoundCall}

/-- The domain of a bound call has the planes that the stencil needs. -/
theorem bind_planes (passed : call.bind interface = .ok bound) :
    interface.minPlanes ≤ call.domain.k := by
  unfold bind at passed
  split at passed
  · cases passed
  next enough => exact Nat.not_lt.mp enough

theorem bind_fields (passed : call.bind interface = .ok bound) :
    bindFields interface call = .ok bound.fields ∧
      bindScalars interface call = .ok bound.scalars := by
  unfold bind at passed
  split at passed
  · cases passed
  · obtain ⟨fields, boundFields, passed⟩ := Steps.bind_eq_ok.mp passed
    obtain ⟨scalars, boundScalars, same⟩ := Steps.bind_eq_ok.mp passed
    cases same
    exact ⟨boundFields, boundScalars⟩

/-- **Every parameter of a bound call has a buffer that fits.** -/
theorem bind_boundTo (passed : call.bind interface = .ok bound) :
    List.Forall₂ (BoundTo call) interface.parameters bound.fields :=
  (bindFields_boundTo (bind_fields passed).1).1

/-- **No two parameters of a bound call share an argument.** -/
theorem bind_distinct (passed : call.bind interface = .ok bound) :
    (bound.fields.map BoundField.argument).Nodup :=
  (bindFields_boundTo (bind_fields passed).1).2

/-- The parameter that is bound to an argument. -/
theorem exists_parameter (passed : call.bind interface = .ok bound) {number : Nat}
    (isBound : number ∈ bound.fields.map BoundField.argument) :
    ∃ (n : Nat) (field : InterfaceField) (given : BoundField),
      interface.parameters[n]? = some field ∧ bound.fields[n]? = some given ∧
        given.argument = number := by
  obtain ⟨given, member, rfl⟩ := List.mem_map.mp isBound
  obtain ⟨n, isGiven⟩ := List.mem_iff_getElem?.mp member
  have below : n < interface.parameters.length :=
    List.Forall₂.length_eq (bind_boundTo passed) ▸ (List.getElem?_eq_some_iff.mp isGiven).1
  exact ⟨n, _, given, List.getElem?_eq_getElem below, isGiven, rfl⟩

end Call

/-- Where the domain starts in the buffer of a field. -/
def InterfaceField.start (field : InterfaceField) (origins : Origins) : PerAxis Nat :=
  if field.isParameter then origins.of field.name
  else ⟨field.halo.i.below, field.halo.j.below, field.halo.k.below⟩

/-- The point of a buffer with the given indices, as 64 bits hold them. -/
def Offset.wrapped (index : PerAxis Nat) : Offset :=
  ⟨Number.wrapped index.i, Number.wrapped index.j, Number.wrapped index.k⟩

namespace View

/-- What the view of a field is like, before and during a run. -/
structure Serves (call : Call) (field : InterfaceField) (view : View) : Prop where
  name : view.name = field.name
  zeroDim : view.zeroDim = true ↔ field.dimensions = .zero
  type : view.storage.type = field.type
  writable : field.role = .output ∨ field.role = .temporary → view.writable = true
  temporary : view.computed.isSome = true → field.role = .temporary
  point : view.PointSound
  origin : view.origin = .wrapped (field.start call.origins)
  covers : field.dimensions = .ijk →
    Call.Covers field.halo view.storage.shape (field.start call.origins) call.domain

theorem Serves.of_sameLayout {call : Call} {field : InterfaceField}
    {before after : View} (same : SameLayout before after) (serves : before.Serves call field) :
    after.Serves call field where
  name := same.name.trans serves.name
  zeroDim := same.zeroDim ▸ serves.zeroDim
  type := same.type.trans serves.type
  writable changed := same.writable.trans (serves.writable changed)
  temporary marked := serves.temporary (same.temporary ▸ marked)
  point := serves.point.of_sameLayout same
  origin := same.origin.trans serves.origin
  covers full := by
    rw [same.shape]
    exact serves.covers full

end View

namespace Frame

theorem inside_pointShape : Storage.Inside Storage.pointShape .zero := by
  simp [Storage.Inside, Storage.pointShape, PerAxis.all, Offset.zero]

theorem viewOfBound_serves {call : Call} {field : InterfaceField} {bound : BoundField}
    (boundTo : Call.BoundTo call field bound) (parameter : field.isParameter = true) :
    (viewOfBound field bound).Serves call field where
  name := rfl
  zeroDim := decide_eq_true_iff
  type := boundTo.type
  writable changed := by
    rcases changed with output | temporary
    · exact boundTo.writable output
    · rw [InterfaceField.isParameter, temporary] at parameter
      cases parameter
  temporary marked := by cases marked
  point := by
    refine ⟨fun zero => ?_, fun _ => rfl⟩
    show Storage.Inside bound.storage.shape .zero
    rw [boundTo.point (decide_eq_true_iff.mp zero)]
    exact inside_pointShape
  origin := by
    unfold InterfaceField.start
    rw [if_pos parameter, ← boundTo.origin]
    rfl
  covers full := by
    unfold InterfaceField.start
    rw [if_pos parameter, ← boundTo.origin]
    exact boundTo.covers full

theorem viewOfTemporary_serves {field : InterfaceField} (call : Call)
    (temporary : field.isParameter = false) :
    (viewOfTemporary field call.domain).Serves call field where
  name := rfl
  zeroDim := decide_eq_true_iff
  type := rfl
  writable _ := rfl
  temporary _ := by
    revert temporary
    unfold InterfaceField.isParameter
    cases field.role <;> decide
  point := by
    refine ⟨fun zero => ?_, fun zero => ?_⟩
    · have point : (viewOfTemporary field call.domain).storage.shape = Storage.pointShape :=
        if_pos zero
      rw [point]
      exact inside_pointShape
    · exact if_pos zero
  origin := by
    unfold InterfaceField.start
    rw [if_neg (by rw [temporary]; exact Bool.false_ne_true)]
    rfl
  covers full := by
    have shape : (viewOfTemporary field call.domain).storage.shape =
        ⟨padded call.domain.i field.halo.i, padded call.domain.j field.halo.j,
          padded call.domain.k field.halo.k⟩ := if_neg (by rw [full]; decide)
    unfold InterfaceField.start
    rw [shape, if_neg (by rw [temporary]; exact Bool.false_ne_true)]
    unfold padded
    refine ⟨⟨Nat.le_refl _, ?_⟩, ⟨Nat.le_refl _, ?_⟩, ⟨Nat.le_refl _, ?_⟩⟩ <;> simp only <;> omega

/-- The views of fields, one by one: parameters take the bound buffers in turn. -/
theorem viewsOf_forall₂ {P : InterfaceField → BoundField → Prop} (domain : PerAxis Nat)
    {fields : List InterfaceField} {bound : List BoundField}
    (related : List.Forall₂ P (fields.filter InterfaceField.isParameter) bound) :
    List.Forall₂ (fun field view =>
        (field.isParameter = true ∧ ∃ b, P field b ∧ view = viewOfBound field b) ∨
        (field.isParameter = false ∧ view = viewOfTemporary field domain))
      fields (viewsOf domain fields bound) := by
  induction fields generalizing bound with
  | nil => exact .nil
  | cons field fields ih =>
    unfold viewsOf
    cases parameter : field.isParameter with
    | true =>
      rw [List.filter_cons_of_pos parameter] at related
      cases related with
      | @cons _ first _ rest here more =>
        rw [if_pos rfl]
        exact .cons (.inl ⟨parameter, first, here, rfl⟩) (ih more)
    | false =>
      rw [List.filter_cons_of_neg (by rw [parameter]; exact Bool.false_ne_true)] at related
      rw [if_neg Bool.false_ne_true]
      exact .cons (.inr ⟨parameter, rfl⟩) (ih related)

/-- Every field has a view that serves it. -/
def Serves (interface : Interface) (call : Call) (frame : Frame) : Prop :=
  List.Forall₂ (fun field view => View.Serves call field view) interface.fields frame.views

/-- **The views at the start of a run.** -/
theorem ofBound_serves {call : Call} {interface : Interface} {bound : BoundCall}
    (passed : call.bind interface = .ok bound) :
    (ofBound interface bound call.domain).Serves interface call := by
  refine (viewsOf_forall₂ call.domain (Call.bind_boundTo passed)).imp ?_
  rintro field view (⟨parameter, b, boundTo, rfl⟩ | ⟨temporary, rfl⟩)
  · exact viewOfBound_serves boundTo parameter
  · exact viewOfTemporary_serves call temporary

namespace Serves

variable {interface : Interface} {call : Call} {frame : Frame}

theorem view (serves : frame.Serves interface call) {slot : Nat} {field : InterfaceField}
    (found : interface.fields[slot]? = some field) : (frame.view slot).Serves call field := by
  obtain ⟨below, rfl⟩ := List.getElem?_eq_some_iff.mp found
  have below' : slot < frame.views.length := List.Forall₂.length_eq serves ▸ below
  unfold Frame.view
  rw [List.getD_eq_getElem?_getD, List.getElem?_eq_getElem below', Option.getD_some]
  exact List.Forall₂.get serves below below'

theorem point (serves : frame.Serves interface call) (slot : Nat) :
    (frame.view slot).PointSound := by
  cases found : interface.fields[slot]? with
  | some field => exact (serves.view found).point
  | none =>
    have above := List.getElem?_eq_none_iff.mp found
    have above' : frame.views.length ≤ slot := List.Forall₂.length_eq serves ▸ above
    unfold Frame.view
    rw [List.getD_eq_getElem?_getD, List.getElem?_eq_none above', Option.getD_none]
    exact ⟨fun absurd => (nomatch absurd), fun absurd => (nomatch absurd)⟩

theorem commit (serves : frame.Serves interface call) (slot : Nat) (region : Region)
    (values : List Float) : (frame.commit slot region values).1.Serves interface call := by
  have changed : (frame.commit slot region values).1.views =
      frame.views.set slot ((frame.view slot).commit region values).1 := rfl
  have length := List.Forall₂.length_eq serves
  unfold Serves at serves ⊢
  rw [changed, List.forall₂_iff_get]
  refine ⟨by rw [List.length_set, length], fun n below below' => ?_⟩
  rw [List.get_eq_getElem, List.get_eq_getElem, List.getElem_set]
  rw [List.length_set] at below'
  have here := List.Forall₂.get serves below below'
  rw [List.get_eq_getElem, List.get_eq_getElem] at here
  split
  next same =>
    subst same
    have view : frame.view slot = frame.views[slot] := by
      unfold Frame.view
      rw [List.getD_eq_getElem?_getD, List.getElem?_eq_getElem below', Option.getD_some]
    rw [view]
    exact here.of_sameLayout (View.sameLayout_commit _ region values)
  · exact here

theorem runTask (serves : frame.Serves interface call) (task : Schedule.Task) :
    (Schedule.runTask task frame).1.Serves interface call := by
  unfold Schedule.runTask
  split
  · exact serves
  · split
    · exact serves
    · exact serves.commit _ _ _

theorem runTasks (serves : frame.Serves interface call) (tasks : List Schedule.Task) :
    (Schedule.runTasks tasks frame).1.Serves interface call := by
  induction tasks generalizing frame with
  | nil => exact serves
  | cons task rest ih =>
    have here := serves.runTask task
    unfold Schedule.runTasks
    split
    next middle ran =>
      rw [ran] at here
      exact ih here
    next middle _ ran =>
      rw [ran] at here
      exact here

end Serves

end Frame

end GridStencil
