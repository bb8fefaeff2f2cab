import Mathlib.Algebra.BigOperators.Ring.Finset
import Scriptlet.Proofs.Machine.Heap

namespace Scriptlet.Heap

/-- What is asked of a heap. -/
inductive Request
  | allocate (value : Int64)
  | retain (handle : Handle)
  | release (handle : Handle)

/-- What has been asked, and the answer. -/
inductive Event
  | allocated (value : Int64) (handle : Handle)
  | retained (handle : Handle) (success : Bool)
  | released (handle : Handle) (value? : Option Int64)
  deriving DecidableEq

/-- A heap that cannot do what it is asked stays as it is. -/
def serve (h : Heap) : Request → Event × Heap
  | .allocate value => (.allocated value (h.allocate value).1, (h.allocate value).2)
  | .retain handle =>
    match h.retain? handle with
    | some h' => (.retained handle true, h')
    | none => (.retained handle false, h)
  | .release handle =>
    match h.release? handle with
    | some (value, h') => (.released handle (some value), h')
    | none => (.released handle none, h)

/-- A new heap after these requests, of which the latest comes first. -/
def after : List Request → Heap
  | [] => empty
  | request :: earlier => ((after earlier).serve request).2

/-- What has happened, the latest first. -/
def events : List Request → List Event
  | [] => []
  | request :: earlier => ((after earlier).serve request).1 :: events earlier

namespace Event

/-- The handle that has been given out. -/
def handle? : Event → Option Handle
  | allocated _ handle => some handle
  | _ => none

def retains (handle : Handle) : Event → Bool
  | retained other success => handle = other && success
  | _ => false

def releases (handle : Handle) : Event → Bool
  | released other value? => handle = other && value?.isSome
  | _ => false

end Event

/-- All the handles that have been given out. -/
def handles (history : List Event) : List Handle := history.filterMap (·.handle?)

/-- One, and one for each retaining that has succeeded, less one for each releasing that has. -/
def balance (history : List Event) (handle : Handle) : Int :=
  1 + history.countP (·.retains handle) - history.countP (·.releases handle)

/-- The handle has been given out and is still referred to. -/
def Live (history : List Event) (handle : Handle) : Prop :=
  handle ∈ handles history ∧ 0 < balance history handle

/-- The handles that are live, each once if it has been given out once. -/
def liveHandles (history : List Event) : List Handle :=
  (handles history).filter fun handle => 0 < balance history handle

section history

variable {history : List Event} {handle : Handle}

theorem mem_handles_iff :
    handle ∈ handles history ↔ ∃ value, .allocated value handle ∈ history := by
  rw [handles, List.mem_filterMap]
  constructor
  · rintro ⟨event, hmem, hhandle⟩
    cases event with
    | allocated value other =>
      cases hhandle
      exact ⟨value, hmem⟩
    | retained | released => cases hhandle
  · rintro ⟨value, hmem⟩
    exact ⟨_, hmem, rfl⟩

theorem mem_liveHandles_iff : handle ∈ liveHandles history ↔ Live history handle := by
  rw [liveHandles, List.mem_filter, decide_eq_true_iff, Live]

theorem balance_cons (event : Event) :
    balance (event :: history) handle = balance history handle +
      ((event.retains handle).toNat - (event.releases handle).toNat) := by
  rw [balance, balance, List.countP_cons, List.countP_cons]
  cases event.retains handle <;> cases event.releases handle <;> simp <;> omega

theorem balance_retained (other : Handle) :
    balance (.retained handle true :: history) other =
      balance history other + if other = handle then 1 else 0 := by
  rw [balance_cons]
  by_cases ho : other = handle <;> simp [Event.retains, Event.releases, ho]

theorem balance_released (other : Handle) (value : Int64) :
    balance (.released handle (some value) :: history) other =
      balance history other + if other = handle then -1 else 0 := by
  rw [balance_cons]
  by_cases ho : other = handle <;> simp [Event.retains, Event.releases, ho]

/-- A handle is given out with one value only. -/
theorem value_unique (hn : (handles history).Nodup) {value value' : Int64}
    (h : .allocated value handle ∈ history) (h' : .allocated value' handle ∈ history) :
    value = value' := by
  induction history with
  | nil => cases h
  | cons event earlier ih =>
    have hlater (hevent : event.handle? = some handle) : handle ∉ handles earlier := by
      rw [handles, List.filterMap_cons_some hevent] at hn
      exact (List.nodup_cons.mp hn).1
    rcases List.mem_cons.mp h with rfl | hmem
    · rcases List.mem_cons.mp h' with heq | hmem'
      · exact (Event.allocated.inj heq).1.symm
      · exact absurd (mem_handles_iff.mpr ⟨_, hmem'⟩) (hlater rfl)
    · rcases List.mem_cons.mp h' with rfl | hmem'
      · exact absurd (mem_handles_iff.mpr ⟨_, hmem⟩) (hlater rfl)
      · exact ih (hn.sublist ((List.sublist_cons_self _ _).filterMap _)) hmem hmem'

end history

/-- The history explains the heap. -/
structure Explains (history : List Event) (h : Heap) : Prop where
  sound : h.Sound
  nodup : (handles history).Nodup
  id_lt : ∀ handle ∈ handles history, handle.id < h.nextId
  /-- Handles that are still to come have not been retained or released. -/
  untouched : ∀ handle : Handle, h.nextId ≤ handle.id → balance history handle = 1
  present : ∀ handle object, h.get? handle = some object →
    .allocated object.value handle ∈ history ∧ (object.count : Int) = balance history handle ∧
      1 ≤ object.count
  gone : ∀ handle ∈ handles history, h.get? handle = none → balance history handle = 0

namespace Explains

variable {history : List Event} {h : Heap}

theorem empty : Explains [] empty where
  sound := sound_empty
  nodup := List.nodup_nil
  id_lt _ hmem := nomatch hmem
  untouched _ _ := rfl
  present _ _ hg := nomatch hg
  gone _ hmem := nomatch hmem

theorem live_iff (hh : Explains history h) (handle : Handle) :
    (h.get? handle).isSome ↔ Live history handle := by
  cases ho : h.get? handle with
  | none =>
    refine ⟨nofun, fun hlive => ?_⟩
    have hzero := hh.gone handle hlive.1 ho
    exact absurd hlive.2 (by omega)
  | some object =>
    obtain ⟨hmem, hcount, hpos⟩ := hh.present handle object ho
    exact ⟨fun _ => ⟨mem_handles_iff.mpr ⟨_, hmem⟩, by omega⟩, fun _ => rfl⟩

theorem nodup_liveHandles (hh : Explains history h) : (liveHandles history).Nodup :=
  hh.nodup.filter _

theorem perm_liveHandles (hh : Explains history h) :
    (h.objects.map (·.1)).Perm (liveHandles history) := by
  rw [List.perm_ext_iff_of_nodup hh.sound.nodup hh.nodup_liveHandles]
  intro handle
  rw [mem_keys_iff, mem_liveHandles_iff]
  exact hh.live_iff handle

theorem size_eq (hh : Explains history h) : h.size = (liveHandles history).length := by
  rw [← hh.perm_liveHandles.length_eq, List.length_map, size]

theorem references_eq (hh : Explains history h) :
    (h.references : Int) = ((liveHandles history).map (balance history)).sum := by
  have hcounts : h.references =
      ((liveHandles history).map fun handle => (balance history handle).toNat).sum := by
    rw [← (hh.perm_liveHandles.map _).sum_eq]
    apply hh.sound.references_eq_sum
    intro handle object ho
    rw [← (hh.present handle object ho).2.1, Int.toNat_natCast]
  rw [hcounts, Nat.cast_list_sum, List.map_map]
  refine congrArg List.sum (List.map_congr_left fun handle hmem => ?_)
  exact Int.toNat_of_nonneg (mem_liveHandles_iff.mp hmem).2.le

theorem balance_nonneg (hh : Explains history h) {handle : Handle}
    (hmem : handle ∈ handles history) : 0 ≤ balance history handle := by
  cases ho : h.get? handle with
  | none => exact (hh.gone handle hmem ho).ge
  | some object =>
    rw [← (hh.present handle object ho).2.1]
    exact Int.natCast_nonneg _

/-- The value that a live object is released with is the one that its handle was given out for. -/
theorem value_eq (hh : Explains history h) {handle : Handle} {object : Object}
    (ho : h.get? handle = some object) (value : Int64) :
    .allocated value handle ∈ history ↔ value = object.value := by
  obtain ⟨hmem, -⟩ := hh.present handle object ho
  constructor
  · intro hmem'
    exact value_unique hh.nodup hmem' hmem
  · rintro rfl
    exact hmem

theorem allocate (hh : Explains history h) (value : Int64) :
    Explains (.allocated value (h.allocate value).1 :: history) (h.allocate value).2 := by
  have hbalance (handle : Handle) :
      balance (.allocated value (h.allocate value).1 :: history) handle =
        balance history handle := by
    rw [balance_cons]
    exact Int.add_zero _
  have hnew : (h.allocate value).1 ∉ handles history :=
    fun hmem => Nat.lt_irrefl _ (hh.id_lt _ hmem)
  refine ⟨hh.sound.allocate value, List.nodup_cons.mpr ⟨hnew, hh.nodup⟩, fun handle hmem => ?_,
    fun handle hle => ?_, fun handle object hg => ?_, fun handle hmem hg => ?_⟩
  · rcases List.mem_cons.mp hmem with rfl | hmem
    · exact Nat.lt_succ_self _
    · exact Nat.lt_succ_of_lt (hh.id_lt handle hmem)
  · rw [hbalance]
    exact hh.untouched handle (Nat.le_of_succ_le hle)
  · rw [hbalance]
    rw [get?_allocate] at hg
    split at hg
    · rename_i heq
      cases hg
      subst heq
      exact ⟨List.mem_cons_self, (hh.untouched _ (Nat.le_refl _)).symm, Nat.le_refl _⟩
    · obtain ⟨hmem, hcount⟩ := hh.present handle object hg
      exact ⟨List.mem_cons_of_mem _ hmem, hcount⟩
  · rw [hbalance]
    rw [get?_allocate] at hg
    split at hg
    · cases hg
    · rename_i hne
      exact hh.gone handle ((List.mem_cons.mp hmem).resolve_left hne) hg

/-- A request that changes the references to one live object. -/
theorem change (hh : Explains history h) {handle : Handle} {object : Object}
    (ho : h.get? handle = some object) {event : Event} (hevent : event.handle? = none) {k : Int}
    (hbalance : ∀ other, balance (event :: history) other =
      balance history other + if other = handle then k else 0)
    {h' : Heap} (hsound : h'.Sound) (hnext : h'.nextId = h.nextId) {left : Option Object}
    (hget : ∀ other, h'.get? other = if other = handle then left else h.get? other)
    (hleft : ∀ object', left = some object' → object'.value = object.value ∧
      (object'.count : Int) = object.count + k ∧ 1 ≤ object'.count)
    (hnone : left = none → object.count + k = 0) :
    Explains (event :: history) h' := by
  obtain ⟨hmem, hcount, -⟩ := hh.present handle object ho
  have hhandles : handles (event :: history) = handles history :=
    List.filterMap_cons_none hevent
  refine ⟨hsound, hhandles ▸ hh.nodup, hhandles ▸ hnext ▸ hh.id_lt, fun other hle => ?_,
    fun other object' hg => ?_, fun other hother hg => ?_⟩
  · have hlt := hh.sound.id_lt ho
    rw [hnext] at hle
    rw [hbalance, if_neg (by rintro rfl; omega), hh.untouched other hle]
    rfl
  · rw [hget] at hg
    rw [hbalance]
    split at hg
    · rename_i heq
      subst heq
      obtain ⟨hvalue, hcount', hpos⟩ := hleft object' hg
      rw [if_pos rfl, hvalue]
      exact ⟨List.mem_cons_of_mem _ hmem, by omega, hpos⟩
    · rename_i hne
      obtain ⟨hmem', hcount', hpos⟩ := hh.present other object' hg
      rw [if_neg hne]
      exact ⟨List.mem_cons_of_mem _ hmem', by omega, hpos⟩
  · rw [hhandles] at hother
    rw [hget] at hg
    rw [hbalance]
    split at hg
    · rename_i heq
      have hzero := hnone hg
      subst heq
      rw [if_pos rfl, ← hcount]
      exact hzero
    · rename_i hne
      rw [if_neg hne, hh.gone other hother hg]
      rfl

/-- A request that has not been met changes nothing. -/
theorem refuse (hh : Explains history h) {event : Event} (hevent : event.handle? = none)
    (hretains : ∀ handle, event.retains handle = false)
    (hreleases : ∀ handle, event.releases handle = false) :
    Explains (event :: history) h := by
  have hbalance (handle : Handle) : balance (event :: history) handle = balance history handle := by
    rw [balance_cons, hretains, hreleases]
    exact Int.add_zero _
  have hhandles : handles (event :: history) = handles history :=
    List.filterMap_cons_none hevent
  refine ⟨hh.sound, hhandles ▸ hh.nodup, hhandles ▸ hh.id_lt, fun handle hle => ?_,
    fun handle object hg => ?_, fun handle hmem hg => ?_⟩
  · rw [hbalance, hh.untouched handle hle]
  · obtain ⟨hmem, hcount⟩ := hh.present handle object hg
    rw [hbalance]
    exact ⟨List.mem_cons_of_mem _ hmem, hcount⟩
  · rw [hbalance]
    exact hh.gone handle (hhandles ▸ hmem) hg

/-- The next request, whatever it is. -/
theorem serve (hh : Explains history h) (request : Request) :
    Explains ((h.serve request).1 :: history) (h.serve request).2 := by
  cases request with
  | allocate value => exact hh.allocate value
  | retain handle =>
    cases ho : h.get? handle with
    | none =>
      have hr : h.retain? handle = none := by
        rw [retain?, ho]
        rfl
      simp only [Heap.serve, hr]
      refine hh.refuse rfl (fun other => ?_) fun _ => rfl
      exact Bool.and_false _
    | some object =>
      obtain ⟨h', hr, hsound, hnext, hget⟩ := retain?_spec hh.sound ho
      simp only [Heap.serve, hr]
      refine hh.change ho rfl balance_retained hsound hnext hget ?_ ?_
      · rintro _ ⟨⟩
        exact ⟨rfl, Int.natCast_succ _, Nat.le_add_left _ _⟩
      · rintro ⟨⟩
  | release handle =>
    cases ho : h.get? handle with
    | none =>
      have hr : h.release? handle = none := by
        rw [release?, ho]
        rfl
      simp only [Heap.serve, hr]
      refine hh.refuse rfl (fun _ => rfl) fun other => ?_
      exact Bool.and_false _
    | some object =>
      obtain ⟨h', hr, hsound, hnext, hget⟩ := release?_spec hh.sound ho
      obtain ⟨-, -, hpos⟩ := hh.present handle object ho
      simp only [Heap.serve, hr]
      refine hh.change ho rfl (balance_released · object.value) hsound hnext hget ?_ ?_
      · intro object' hleft
        obtain ⟨hmore, rfl⟩ := Object.released?_eq_some hleft
        refine ⟨rfl, ?_, ?_⟩ <;> dsimp only <;> omega
      · intro hnone
        have hlast := Object.released?_eq_none hnone
        omega

end Explains

theorem explains_after (requests : List Request) :
    Explains (events requests) (after requests) := by
  induction requests with
  | nil => exact .empty
  | cons request earlier ih => exact ih.serve request

section steps

variable {h : Heap}

/-- What is gone stays so, as its handle is not given out again. -/
theorem get?_serve_eq_none (hh : h.Sound) {handle : Handle} (hlt : handle.id < h.nextId)
    (hg : h.get? handle = none) (request : Request) :
    handle.id < (h.serve request).2.nextId ∧ (h.serve request).2.get? handle = none := by
  cases request with
  | allocate value =>
    refine ⟨Nat.lt_succ_of_lt hlt, ?_⟩
    -- A new handle is not one that has been given out.
    rw [serve, get?_allocate, if_neg (by rintro rfl; exact Nat.lt_irrefl _ hlt), hg]
  | retain other =>
    cases ho : h.get? other with
    | none => simp [serve, retain?, ho, hlt, hg]
    | some object =>
      obtain ⟨h', hr, -, hnext, hget⟩ := retain?_spec hh ho
      simp only [serve, hr]
      rw [hnext, hget, if_neg (by rintro rfl; rw [hg] at ho; cases ho)]
      exact ⟨hlt, hg⟩
  | release other =>
    cases ho : h.get? other with
    | none => simp [serve, release?, ho, hlt, hg]
    | some object =>
      obtain ⟨h', hr, -, hnext, hget⟩ := release?_spec hh ho
      simp only [serve, hr]
      rw [hnext, hget, if_neg (by rintro rfl; rw [hg] at ho; cases ho)]
      exact ⟨hlt, hg⟩

/-- No request takes up more than one id, or adds more than one reference. -/
theorem serve_le (h : Heap) (request : Request) :
    (h.serve request).2.nextId ≤ h.nextId + 1 ∧
      (h.serve request).2.references ≤ h.references + 1 := by
  cases request with
  | allocate value => exact ⟨Nat.le_refl _, (Nat.add_comm 1 h.references).le⟩
  | retain handle =>
    cases ho : h.get? handle with
    | none => simp [serve, retain?, ho]
    | some object =>
      simp only [serve, retain?, ho, Option.map_some]
      refine ⟨Nat.le_succ _, references_alter_le ?_ handle h⟩
      rintro o _ ⟨⟩
      exact Nat.le_refl _
  | release handle =>
    cases ho : h.get? handle with
    | none => simp [serve, release?, ho]
    | some object =>
      simp only [serve, release?, ho, Option.map_some]
      refine ⟨Nat.le_succ _, references_alter_le ?_ handle h⟩
      intro o o' hleft
      obtain ⟨-, rfl⟩ := Object.released?_eq_some hleft
      dsimp only
      omega

end steps

theorem get?_after_eq_none {requests : List Request} {handle : Handle}
    (hmem : handle ∈ handles (events requests)) (hg : (after requests).get? handle = none)
    (later : List Request) : (after (later ++ requests)).get? handle = none := by
  have hlt := (explains_after requests).id_lt handle hmem
  suffices h : handle.id < (after (later ++ requests)).nextId ∧
      (after (later ++ requests)).get? handle = none from h.2
  induction later with
  | nil => exact ⟨hlt, hg⟩
  | cons request later ih =>
    exact get?_serve_eq_none (explains_after _).sound ih.1 ih.2 request

theorem after_le (requests : List Request) :
    (after requests).nextId ≤ requests.length ∧ (after requests).references ≤ requests.length := by
  induction requests with
  | nil => exact ⟨Nat.le_refl _, Nat.le_refl _⟩
  | cons request earlier ih =>
    have hstep := serve_le (after earlier) request
    rw [after, List.length_cons]
    omega

/-- What a new heap is after these requests can be told from its history. -/
structure RefinesCounters (requests : List Request) : Prop where
  get? : ∀ handle, ((after requests).get? handle).isSome ↔ Live (events requests) handle
  count : ∀ handle object, (after requests).get? handle = some object →
    (object.count : Int) = balance (events requests) handle
  retain? : ∀ handle, ((after requests).retain? handle).isSome ↔ Live (events requests) handle
  release? : ∀ handle, ((after requests).release? handle).isSome ↔ Live (events requests) handle
  /-- Every release gives the value that the handle was given out for. -/
  value : ∀ handle value h', (after requests).release? handle = some (value, h') →
    ∀ value', .allocated value' handle ∈ events requests ↔ value' = value
  fresh : ∀ value, ((after requests).allocate value).1 ∉ handles (events requests)
  nodup : (handles (events requests)).Nodup
  /-- What has been evicted does not come back. -/
  dead : ∀ handle ∈ handles (events requests), (after requests).get? handle = none →
    ∀ later, (after (later ++ requests)).get? handle = none
  size : (after requests).size = (liveHandles (events requests)).length
  references : ((after requests).references : Int) =
    ((liveHandles (events requests)).map (balance (events requests))).sum
  /-- So there is always a reference to give up. -/
  count_pos : ∀ handle object, (after requests).get? handle = some object → 1 ≤ object.count
  balance_nonneg : ∀ handle ∈ handles (events requests), 0 ≤ balance (events requests) handle
  /-- Ids and counts do not outgrow the number of requests. -/
  bounded : (after requests).nextId ≤ requests.length ∧
    (after requests).references ≤ requests.length

theorem refines_counters (requests : List Request) : RefinesCounters requests := by
  have hh := explains_after requests
  exact {
    get? := hh.live_iff
    count := fun handle object ho => (hh.present handle object ho).2.1
    retain? := fun handle => by
      rw [Heap.retain?, Option.isSome_map]
      exact hh.live_iff handle
    release? := fun handle => by
      rw [Heap.release?, Option.isSome_map]
      exact hh.live_iff handle
    value := fun handle value h' hr => by
      obtain ⟨object, ho, heq⟩ := Option.map_eq_some_iff.mp hr
      cases heq
      exact hh.value_eq ho
    fresh := fun value hmem => Nat.lt_irrefl _ (hh.id_lt _ hmem)
    nodup := hh.nodup
    dead := fun handle hmem hg => get?_after_eq_none hmem hg
    size := hh.size_eq
    references := hh.references_eq
    count_pos := fun handle object ho => (hh.present handle object ho).2.2
    balance_nonneg := fun handle => hh.balance_nonneg
    bounded := after_le requests }

/-- Three objects; the first one is retained, released until it is gone, and asked for again. -/
example :
    let requests : List Request := [.allocate 30, .release ⟨0⟩, .retain ⟨0⟩, .release ⟨0⟩,
      .release ⟨0⟩, .retain ⟨0⟩, .allocate 20, .allocate 10]
    events requests = [.allocated 30 ⟨2⟩, .released ⟨0⟩ none, .retained ⟨0⟩ false,
      .released ⟨0⟩ (some 10), .released ⟨0⟩ (some 10), .retained ⟨0⟩ true, .allocated 20 ⟨1⟩,
      .allocated 10 ⟨0⟩] ∧
    balance (events requests) ⟨0⟩ = 0 ∧ liveHandles (events requests) = [⟨2⟩, ⟨1⟩] := by
  decide

end Scriptlet.Heap
