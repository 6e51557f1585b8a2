import Mathlib.Data.List.TakeWhile
import Mathlib.Tactic

/-!
# Setting up the shared objects

The constructor of the manager draws a key and creates seven objects with keys next to it.  When
one of them exists already, it removes what it created and draws another key.  The handler asks
five attributes, and an attribute keeps its object when the object is removed, so the next
handler may ask a stale one.  Removing an object twice raises the error that the handler handles,
but inside the handler.
-/

namespace Difftest.Fuzzer

/-! ## The objects of the host -/

inductive IpcKind where
  | shm
  | sem
deriving DecidableEq, Repr

/-- An object that the manager created.  The host never gives an id twice. -/
structure Ipc where
  kind : IpcKind
  key : Nat
  id : Nat
deriving DecidableEq, Repr

/-- The attributes of the manager that hold objects. -/
inductive IpcAttr where
  | mNumShm
  | cNumShm
  | mNumSem
  | cNumSem
  | covMapSem
  | procStates
  | stateSem
deriving DecidableEq, Repr

namespace IpcAttr

def kind : IpcAttr → IpcKind
  | mNumShm | cNumShm | procStates => .shm
  | mNumSem | cNumSem | covMapSem | stateSem => .sem

/-- What the constructor adds to the key that it draws. -/
def offset : IpcAttr → Nat
  | mNumShm => 1
  | cNumShm => 0
  | mNumSem => 3
  | cNumSem => 2
  | covMapSem => 4
  | procStates => 5
  | stateSem => 6

/-- The creations of the constructor in their order. -/
def creations : List IpcAttr :=
  [mNumShm, cNumShm, mNumSem, cNumSem, covMapSem, procStates, stateSem]

/-- What the handler of the constructor removes. -/
def handled : List IpcAttr := [cNumShm, mNumShm, cNumSem, mNumSem, covMapSem]

/-- What `remove` removes. -/
def removals : List IpcAttr := [mNumShm, cNumShm, mNumSem, cNumSem, covMapSem, procStates]

end IpcAttr

/-! ## The manager -/

open IpcAttr

/-- The attributes of the manager, with what became of the objects that it created. -/
structure IpcManager where
  attr : IpcAttr → Option Ipc
  /-- The objects that exist. -/
  own : List Ipc
  created : List Ipc
  removed : List Ipc

namespace IpcManager

/-- The attributes before the loop. -/
def init : IpcManager := ⟨fun _ => none, [], [], []⟩

/-- The objects of the others on the host. -/
abbrev Host := IpcKind → Nat → Bool

variable (host : Host) (key : Nat)

/-- No object of this kind and key exists. -/
def free (manager : IpcManager) (attr : IpcAttr) : Bool :=
  !(host attr.kind (key + attr.offset) ||
    manager.own.any fun obj => obj.kind = attr.kind ∧ obj.key = key + attr.offset)

/-- An attribute gets a new object. -/
def add (manager : IpcManager) (attr : IpcAttr) : IpcManager :=
  let obj : Ipc := ⟨attr.kind, key + attr.offset, manager.created.length⟩
  { manager with
    attr := Function.update manager.attr attr (some obj)
    own := manager.own ++ [obj]
    created := manager.created ++ [obj] }

/-- Create an object with `IPC_CREX`; `none` is an `ExistentialError`. -/
def create (manager : IpcManager) (attr : IpcAttr) : Option IpcManager :=
  if free host key manager attr then some (manager.add key attr) else none

/-- The body of the `try`, and whether it got to its end. -/
def createAll : List IpcAttr → IpcManager → IpcManager × Bool
  | [], manager => (manager, true)
  | attr :: rest, manager =>
      match manager.create host key attr with
      | none => (manager, false)
      | some manager => createAll rest manager

/-- `remove` of an object; `none` is an `ExistentialError`. -/
def removeObj (manager : IpcManager) (obj : Ipc) : Option IpcManager :=
  if obj ∈ manager.own then
    some { manager with own := manager.own.erase obj, removed := manager.removed ++ [obj] }
  else none

/-- `delete_ipc` of an attribute. -/
def deleteIpc (manager : IpcManager) (attr : IpcAttr) : Option IpcManager :=
  match manager.attr attr with
  | none => some manager
  | some obj => manager.removeObj obj

/-- The handler of the constructor. -/
def handle (manager : IpcManager) : Option IpcManager := handled.foldlM deleteIpc manager

/-- `remove` of the manager, called when all attributes are set. -/
def remove (manager : IpcManager) : Option IpcManager := removals.foldlM deleteIpc manager

/-- Where the loop of the constructor is after some keys. -/
inductive Setup where
  | ended (manager : IpcManager)
  | retrying (manager : IpcManager)
  /-- An exception left the handler. -/
  | raised

/-- The loop of the constructor, for the keys that it draws. -/
def setup : List Nat → IpcManager → Setup
  | [], manager => .retrying manager
  | key :: keys, manager =>
      match createAll host key creations manager with
      | (manager, true) => .ended manager
      | (manager, false) =>
          match manager.handle with
          | none => .raised
          | some manager => setup keys manager

/-! ## What the constructor should do -/

/-- All attributes hold objects, these are the ones that exist, and all others were removed
once. -/
structure Tidy (manager : IpcManager) : Prop where
  set : ∀ attr, (manager.attr attr).isSome
  own : ∀ obj, obj ∈ manager.own ↔ ∃ attr, manager.attr attr = some obj
  removed : ∀ obj ∈ manager.created, (∀ attr, manager.attr attr ≠ some obj) →
    manager.removed.count obj = 1

/-- `remove` deletes all objects that the attributes hold. -/
def Removes (manager : IpcManager) : Prop :=
  ∃ after, manager.remove = some after ∧
    ∀ attr obj, manager.attr attr = some obj → obj ∉ after.own

/-- No exception leaves the loop and at its end the manager is tidy. -/
def SetsUp (keys : List Nat) : Prop :=
  match setup host keys init with
  | .ended manager => manager.Tidy
  | .retrying _ => True
  | .raised => False

/-- As `SetsUp`, with `remove` at the end of the fuzzing. -/
def SetsUpAndRemoves (keys : List Nat) : Prop :=
  match setup host keys init with
  | .ended manager => manager.Tidy ∧ manager.Removes
  | .retrying _ => True
  | .raised => False

/-! ## The collisions of the keys -/

/-- An object of the others or one that an earlier attempt left has this kind and key. -/
def collides (leaked : List Nat) (attr : IpcAttr) : Bool :=
  host attr.kind (key + attr.offset) || (attr.kind = .shm && leaked.contains (key + attr.offset))

/-- How many creations an attempt gets through. -/
def depth (leaked : List Nat) : Nat :=
  (creations.takeWhile fun attr => !collides host key leaked attr).length

/-- The objects that nobody removes, after an attempt that failed. -/
def leak (leaked : List Nat) : List Nat :=
  if depth host key leaked = 6 then (key + procStates.offset) :: leaked else leaked

/-- How far each failed attempt gets. -/
def failures (leaked : List Nat) : List Nat → List Nat
  | [] => []
  | key :: keys =>
      if depth host key leaked = 7 then []
      else depth host key leaked :: failures (leak host key leaked) keys

/-- One of the keys has seven free objects. -/
def ends (leaked : List Nat) : List Nat → Bool
  | [] => false
  | key :: keys => depth host key leaked = 7 || ends (leak host key leaked) keys

/-! ## Bookkeeping -/

/-- Every object that was created is there or was removed once, and ids are never given
twice. -/
structure Booked (manager : IpcManager) : Prop where
  split : (manager.removed ++ manager.own).Perm manager.created
  ids : manager.created.map Ipc.id = List.range manager.created.length

section Bookkeeping

variable {host : Host} {key : Nat} {manager after : IpcManager}

theorem booked_init : init.Booked := ⟨List.Perm.refl _, rfl⟩

theorem Booked.nodup_created (booked : manager.Booked) : manager.created.Nodup := by
  apply List.Nodup.of_map Ipc.id
  rw [booked.ids]
  exact List.nodup_range

theorem Booked.mem_created (booked : manager.Booked) {obj : Ipc} (mem : obj ∈ manager.own) :
    obj ∈ manager.created :=
  booked.split.subset (List.mem_append_right _ mem)

theorem Booked.nodup_own (booked : manager.Booked) : manager.own.Nodup :=
  (List.nodup_append'.mp (booked.split.nodup_iff.mpr booked.nodup_created)).2.1

/-- An object that is gone was removed once. -/
theorem Booked.count_removed (booked : manager.Booked) {obj : Ipc} (mem : obj ∈ manager.created)
    (gone : obj ∉ manager.own) : manager.removed.count obj = 1 := by
  have total := List.count_eq_one_of_mem booked.nodup_created mem
  rw [← booked.split.count_eq, List.count_append, List.count_eq_zero_of_not_mem gone] at total
  exact total

/-- The id of a new object is new. -/
theorem Booked.notMem_created (booked : manager.Booked) {obj : Ipc}
    (later : manager.created.length ≤ obj.id) : obj ∉ manager.created := by
  intro mem
  have isId := List.mem_map_of_mem (f := Ipc.id) mem
  rw [booked.ids, List.mem_range] at isId
  exact Nat.not_lt.mpr later isId

theorem Booked.add (booked : manager.Booked) (attr : IpcAttr) : (manager.add key attr).Booked := by
  constructor
  case split =>
    change (manager.removed ++ (manager.own ++ [_])).Perm (manager.created ++ [_])
    rw [← List.append_assoc]
    exact booked.split.append_right _
  case ids =>
    change (manager.created ++ [_]).map Ipc.id = List.range (manager.created ++ [_]).length
    rw [List.map_append, booked.ids, List.length_append, List.length_singleton, List.range_succ]
    rfl

theorem Booked.addAll (booked : manager.Booked) (attrs : List IpcAttr) :
    (attrs.foldl (IpcManager.add key) manager).Booked := by
  induction attrs generalizing manager with
  | nil => exact booked
  | cons attr rest inductionHypothesis => exact inductionHypothesis (booked.add attr)

theorem Booked.removeObj (booked : manager.Booked) {obj : Ipc}
    (gone : manager.removeObj obj = some after) : after.Booked := by
  unfold IpcManager.removeObj at gone
  split at gone
  case isFalse => cases gone
  case isTrue mem =>
    cases gone
    refine ⟨?_, booked.ids⟩
    change (manager.removed ++ [obj] ++ manager.own.erase obj).Perm manager.created
    rw [List.append_assoc]
    exact ((List.perm_cons_erase mem).symm.append_left _).trans booked.split

theorem Booked.deleteIpc (booked : manager.Booked) {attr : IpcAttr}
    (gone : manager.deleteIpc attr = some after) : after.Booked := by
  unfold IpcManager.deleteIpc at gone
  split at gone
  case h_1 =>
    cases gone
    exact booked
  case h_2 => exact booked.removeObj gone

theorem Booked.deleteAll (booked : manager.Booked) {attrs : List IpcAttr}
    (gone : attrs.foldlM IpcManager.deleteIpc manager = some after) : after.Booked := by
  induction attrs generalizing manager with
  | nil =>
      cases gone
      exact booked
  | cons attr rest inductionHypothesis =>
      rcases Option.bind_eq_some_iff.mp gone with ⟨middle, first, last⟩
      exact inductionHypothesis (booked.deleteIpc first) last

end Bookkeeping

/-! ## An attempt -/

theorem takeWhile_congr {α : Type} {p q : α → Bool} {list : List α}
    (same : ∀ a ∈ list, p a = q a) : list.takeWhile p = list.takeWhile q := by
  induction list with
  | nil => rfl
  | cons a rest inductionHypothesis =>
      rw [List.takeWhile_cons, List.takeWhile_cons, same a List.mem_cons_self,
        inductionHypothesis fun b mem => same b (List.mem_cons_of_mem _ mem)]

/-- The objects that a list of creations makes, from an id on. -/
def newObjs (key : Nat) : Nat → List IpcAttr → List Ipc
  | _, [] => []
  | id, attr :: rest => ⟨attr.kind, key + attr.offset, id⟩ :: newObjs key (id + 1) rest

section Attempt

variable {host : Host} {key : Nat}

theorem le_id_of_mem_newObjs {id : Nat} {attrs : List IpcAttr} {obj : Ipc}
    (mem : obj ∈ newObjs key id attrs) : id ≤ obj.id := by
  induction attrs generalizing id with
  | nil => cases mem
  | cons attr rest inductionHypothesis =>
      rcases List.mem_cons.mp mem with rfl | later
      · exact le_refl id
      · exact (Nat.le_succ id).trans (inductionHypothesis later)

theorem created_addAll (manager : IpcManager) (attrs : List IpcAttr) :
    (attrs.foldl (add key) manager).created =
      manager.created ++ newObjs key manager.created.length attrs := by
  induction attrs generalizing manager with
  | nil => exact (List.append_nil _).symm
  | cons attr rest inductionHypothesis =>
      rw [List.foldl_cons, inductionHypothesis]
      simp [add, newObjs]

theorem own_addAll (manager : IpcManager) (attrs : List IpcAttr) :
    (attrs.foldl (add key) manager).own =
      manager.own ++ newObjs key manager.created.length attrs := by
  induction attrs generalizing manager with
  | nil => exact (List.append_nil _).symm
  | cons attr rest inductionHypothesis =>
      rw [List.foldl_cons, inductionHypothesis]
      simp [add, newObjs]

/-- The other attributes are left. -/
theorem attr_addAll_of_notMem (manager : IpcManager) {attrs : List IpcAttr} {attr : IpcAttr}
    (other : attr ∉ attrs) : (attrs.foldl (add key) manager).attr attr = manager.attr attr := by
  induction attrs generalizing manager with
  | nil => rfl
  | cons first rest inductionHypothesis =>
      rcases List.ne_and_not_mem_of_not_mem_cons other with ⟨different, later⟩
      rw [List.foldl_cons, inductionHypothesis _ later]
      exact Function.update_of_ne different _ _

/-- An attribute that is set has the object of its creation. -/
theorem attr_addAll_of_mem (manager : IpcManager) {attrs : List IpcAttr} {attr : IpcAttr}
    (distinct : attrs.Nodup) (mem : attr ∈ attrs) :
    ∃ obj ∈ newObjs key manager.created.length attrs,
      (attrs.foldl (add key) manager).attr attr = some obj ∧
        obj.kind = attr.kind ∧ obj.key = key + attr.offset := by
  induction attrs generalizing manager with
  | nil => cases mem
  | cons first rest inductionHypothesis =>
      rcases List.nodup_cons.mp distinct with ⟨new, distinct'⟩
      have count : (manager.add key first).created.length = manager.created.length + 1 :=
        List.length_append
      rcases List.mem_cons.mp mem with rfl | later
      · refine ⟨_, List.mem_cons_self, ?_, rfl, rfl⟩
        rw [List.foldl_cons, attr_addAll_of_notMem _ new]
        exact Function.update_self _ _ _
      · rcases inductionHypothesis (manager.add key first) distinct' later with
          ⟨obj, isNew, holds, place⟩
        rw [count] at isNew
        exact ⟨obj, List.mem_cons_of_mem _ isNew, holds, place⟩

/-- Every new object is held by the attribute of its creation. -/
theorem exists_attr_addAll (manager : IpcManager) {attrs : List IpcAttr} {obj : Ipc}
    (distinct : attrs.Nodup) (isNew : obj ∈ newObjs key manager.created.length attrs) :
    ∃ attr ∈ attrs, (attrs.foldl (add key) manager).attr attr = some obj := by
  induction attrs generalizing manager with
  | nil => cases isNew
  | cons first rest inductionHypothesis =>
      rcases List.nodup_cons.mp distinct with ⟨new, distinct'⟩
      have count : (manager.add key first).created.length = manager.created.length + 1 :=
        List.length_append
      rcases List.mem_cons.mp isNew with rfl | later
      · refine ⟨first, List.mem_cons_self, ?_⟩
        rw [List.foldl_cons, attr_addAll_of_notMem _ new]
        exact Function.update_self _ _ _
      · rw [← count] at later
        rcases inductionHypothesis (manager.add key first) distinct' later with
          ⟨attr, isLater, holds⟩
        exact ⟨attr, List.mem_cons_of_mem _ isLater, holds⟩

/-- The creations of an attempt do not collide with each other. -/
theorem free_add {manager : IpcManager} {first attr : IpcAttr}
    (apart : (first.kind, first.offset) ≠ (attr.kind, attr.offset)) :
    free host key (manager.add key first) attr = free host key manager attr := by
  have other : ¬ (first.kind = attr.kind ∧ key + first.offset = key + attr.offset) := by
    rintro ⟨sameKind, sameKey⟩
    exact apart (Prod.ext sameKind (Nat.add_left_cancel sameKey))
  unfold free add
  rw [List.any_append, List.any_cons, List.any_nil, decide_eq_false other, Bool.false_or,
    Bool.or_false]

/-- The body of the `try` creates the objects up to the first collision. -/
theorem createAll_eq {attrs : List IpcAttr}
    (apart : attrs.Pairwise fun first attr =>
      (first.kind, first.offset) ≠ (attr.kind, attr.offset)) (manager : IpcManager) :
    createAll host key attrs manager =
      ((attrs.takeWhile (free host key manager)).foldl (add key) manager,
        attrs.all (free host key manager)) := by
  induction attrs generalizing manager with
  | nil => rfl
  | cons first rest inductionHypothesis =>
      rcases List.pairwise_cons.mp apart with ⟨others, apart'⟩
      unfold createAll create
      cases isFree : free host key manager first with
      | false => simp [isFree]
      | true =>
          have same : ∀ attr ∈ rest,
              free host key (manager.add key first) attr = free host key manager attr :=
            fun attr mem => free_add (others attr mem)
          have sameAll : rest.all (free host key (manager.add key first)) =
              rest.all (free host key manager) := by
            rw [Bool.eq_iff_iff, List.all_eq_true, List.all_eq_true]
            exact forall₂_congr fun attr mem => by rw [same attr mem]
          have sameTake : rest.takeWhile (free host key (manager.add key first)) =
              rest.takeWhile (free host key manager) := takeWhile_congr same
          rw [if_pos rfl]
          simp only [inductionHypothesis apart', sameAll, sameTake, List.takeWhile_cons, isFree,
            if_true, List.foldl_cons, List.all_cons, Bool.true_and]

end Attempt

/-! ## Removing -/

section Removing

variable {manager after : IpcManager}

/-- Removing changes no attribute. -/
theorem deleteIpc_frame {attr : IpcAttr} (gone : manager.deleteIpc attr = some after) :
    after.attr = manager.attr ∧ after.created = manager.created ∧ after.own ⊆ manager.own := by
  unfold deleteIpc at gone
  split at gone
  case h_1 =>
    cases gone
    exact ⟨rfl, rfl, List.Subset.refl _⟩
  case h_2 =>
    unfold removeObj at gone
    split at gone
    case isFalse => cases gone
    case isTrue =>
      cases gone
      exact ⟨rfl, rfl, List.erase_subset⟩

/-- An attribute with a stale object makes the removal raise. -/
theorem deleteAll_of_stale {attrs : List IpcAttr} {attr : IpcAttr} {obj : Ipc}
    (mem : attr ∈ attrs) (holds : manager.attr attr = some obj) (stale : obj ∉ manager.own) :
    attrs.foldlM deleteIpc manager = none := by
  induction attrs generalizing manager with
  | nil => cases mem
  | cons first rest inductionHypothesis =>
      rw [List.foldlM_cons]
      cases gone : manager.deleteIpc first with
      | none => rfl
      | some middle =>
          rcases deleteIpc_frame gone with ⟨sameAttr, _, fewer⟩
          rcases List.mem_cons.mp mem with rfl | later
          · unfold deleteIpc removeObj at gone
            simp [holds, stale] at gone
          · apply inductionHypothesis later
            · rw [sameAttr, holds]
            · exact fun isOwn => stale (fewer isOwn)

/-- Attributes with different objects that all exist are removed. -/
theorem deleteAll_of_current {attrs : List IpcAttr}
    (distinct : (attrs.filterMap manager.attr).Nodup)
    (current : attrs.filterMap manager.attr ⊆ manager.own) :
    ∃ after, attrs.foldlM deleteIpc manager = some after ∧ after.attr = manager.attr ∧
      after.created = manager.created ∧
      after.own = manager.own.diff (attrs.filterMap manager.attr) := by
  induction attrs generalizing manager with
  | nil => exact ⟨manager, rfl, rfl, rfl, rfl⟩
  | cons first rest inductionHypothesis =>
      rw [List.foldlM_cons]
      cases holds : manager.attr first with
      | none =>
          rw [List.filterMap_cons_none holds] at distinct current ⊢
          have skipped : manager.deleteIpc first = some manager := by
            unfold deleteIpc
            rw [holds]
          rw [skipped]
          exact inductionHypothesis distinct current
      | some obj =>
          rw [List.filterMap_cons_some holds] at distinct current ⊢
          rcases List.nodup_cons.mp distinct with ⟨new, distinct'⟩
          have isOwn : obj ∈ manager.own := current List.mem_cons_self
          have gone : manager.deleteIpc first = some
              { manager with
                own := manager.own.erase obj
                removed := manager.removed ++ [obj] } := by
            unfold deleteIpc removeObj
            simp only [holds, if_pos isOwn]
          have current' : rest.filterMap manager.attr ⊆ manager.own.erase obj := by
            intro other mem
            have different : other ≠ obj := by
              rintro rfl
              exact new mem
            exact (List.mem_erase_of_ne different).mpr (current (List.mem_cons_of_mem _ mem))
          rw [gone, List.diff_cons]
          exact @inductionHypothesis { manager with
            own := manager.own.erase obj
            removed := manager.removed ++ [obj] } distinct' current'

end Removing

/-! ## The loop -/

/-- The manager between two attempts: the earlier ones got through `reached` creations that the
handler covers, and left the `leaked` keys of shared memory behind. -/
structure Waiting (reached : Nat) (leaked : List Nat) (manager : IpcManager) : Prop where
  booked : manager.Booked
  stale : ∀ attr ∈ handled, attr ∈ creations.take reached →
    ∃ obj ∈ manager.created, manager.attr attr = some obj ∧ obj ∉ manager.own
  unset : ∀ attr ∈ handled, attr ∉ creations.take reached → manager.attr attr = none
  places : ∀ kind key, (∃ obj ∈ manager.own, obj.kind = kind ∧ obj.key = key) ↔
    kind = .shm ∧ key ∈ leaked

theorem mem_creations (attr : IpcAttr) : attr ∈ creations := by cases attr <;> decide

theorem nodup_creations : creations.Nodup := by decide

theorem nodup_take_creations (d : Nat) : (creations.take d).Nodup :=
  nodup_creations.sublist (List.take_sublist _ _)

theorem creations_apart : creations.Pairwise fun first attr =>
    (first.kind, first.offset) ≠ (attr.kind, attr.offset) := by decide

theorem eq_of_place {key : Nat} {first second : IpcAttr} (sameKind : first.kind = second.kind)
    (sameKey : key + first.offset = key + second.offset) : first = second := by
  have apart : ∀ first ∈ creations, ∀ second ∈ creations, first.kind = second.kind →
      first.offset = second.offset → first = second := by decide
  exact apart first (mem_creations first) second (mem_creations second) sameKind
    (Nat.add_left_cancel sameKey)

section Loop

variable {host : Host} {key reached : Nat} {leaked : List Nat} {manager : IpcManager}

theorem waiting_init : Waiting 0 [] init := by
  refine ⟨booked_init, ?_, fun _ _ _ => rfl, ?_⟩
  · intro attr _ mem
    cases mem
  · simp [init]

theorem depth_le : depth host key leaked ≤ 7 := (List.takeWhile_prefix _).length_le

/-- What the host refuses follows from the keys that were leaked. -/
theorem Waiting.free_eq (waiting : Waiting reached leaked manager) (attr : IpcAttr) :
    free host key manager attr = !collides host key leaked attr := by
  have taken : (manager.own.any fun obj =>
        obj.kind = attr.kind ∧ obj.key = key + attr.offset) =
      (attr.kind = .shm && leaked.contains (key + attr.offset)) := by
    rw [Bool.eq_iff_iff]
    have place := waiting.places attr.kind (key + attr.offset)
    simpa using place
  unfold free collides
  rw [taken]

/-- An attempt creates the objects up to its depth. -/
theorem Waiting.createAll_eq (waiting : Waiting reached leaked manager) :
    createAll host key creations manager =
      ((creations.take (depth host key leaked)).foldl (add key) manager,
        decide (depth host key leaked = 7)) := by
  have same : free host key manager = fun attr => !collides host key leaked attr :=
    funext waiting.free_eq
  have front : creations.takeWhile (fun attr => !collides host key leaked attr) =
      creations.take (depth host key leaked) :=
    List.prefix_iff_eq_take.mp (List.takeWhile_prefix _)
  have whole : creations.all (fun attr => !collides host key leaked attr) =
      decide (depth host key leaked = 7) := by
    rw [Bool.eq_iff_iff, List.all_eq_true, decide_eq_true_iff]
    constructor
    · intro free
      unfold depth
      rw [List.takeWhile_eq_self_iff.mpr free]
      rfl
    · intro deep
      have full : creations.take (depth host key leaked) = creations := by
        rw [deep]
        rfl
      rw [← List.takeWhile_eq_self_iff, front, full]
  rw [IpcManager.createAll_eq creations_apart, same, front, whole]

section Tried

variable {tried : IpcManager} {d : Nat}
  (isTried : tried = (creations.take d).foldl (add key) manager)

include isTried

/-- What an attempt created is new. -/
theorem Waiting.attr_tried (waiting : Waiting reached leaked manager) {attr : IpcAttr}
    (made : attr ∈ creations.take d) :
    ∃ obj ∈ tried.own, obj ∉ manager.created ∧ tried.attr attr = some obj ∧
      obj.kind = attr.kind ∧ obj.key = key + attr.offset := by
  rcases @attr_addAll_of_mem key manager _ _ (nodup_take_creations d) made with
    ⟨obj, isNew, holds, place⟩
  refine ⟨obj, ?_, waiting.booked.notMem_created (le_id_of_mem_newObjs isNew), ?_, place⟩
  · rw [isTried, own_addAll]
    exact List.mem_append_right _ isNew
  · rw [isTried, holds]

/-- An object that is there after an attempt was there before or belongs to a creation. -/
theorem own_tried {obj : Ipc} (mem : obj ∈ tried.own) :
    obj ∈ manager.own ∨ ∃ attr ∈ creations.take d, tried.attr attr = some obj := by
  rw [isTried, own_addAll] at mem
  apply (List.mem_append.mp mem).imp_right
  intro isNew
  rw [isTried]
  exact exists_attr_addAll manager (nodup_take_creations d) isNew

theorem own_subset_tried : manager.own ⊆ tried.own := by
  rw [isTried, own_addAll]
  exact List.subset_append_left _ _

/-- The other attributes are as before the attempt. -/
theorem attr_tried_of_notMem {attr : IpcAttr} (other : attr ∉ creations.take d) :
    tried.attr attr = manager.attr attr := by
  rw [isTried]
  exact attr_addAll_of_notMem manager other

/-- The objects that an attempt created for different attributes are different. -/
theorem Waiting.nodup_attrs (waiting : Waiting reached leaked manager) {attrs : List IpcAttr}
    (distinct : attrs.Nodup)
    (current : ∀ attr ∈ attrs, attr ∈ creations.take d ∨ tried.attr attr = none) :
    (attrs.filterMap tried.attr).Nodup := by
  apply List.pairwise_filterMap.mpr
  apply distinct.pairwise_of_forall_ne
  intro first isFirst second isSecond different obj holds obj' holds' same
  apply different
  have made : ∀ attr ∈ attrs, ∀ obj, tried.attr attr = some obj →
      obj.kind = attr.kind ∧ obj.key = key + attr.offset := by
    intro attr mem obj holds
    rcases current attr mem with isMade | unset
    · rcases waiting.attr_tried isTried isMade with ⟨obj', _, _, holds', place⟩
      rw [holds] at holds'
      rw [Option.some.inj holds']
      exact place
    · rw [unset] at holds
      cases holds
  rcases made first isFirst obj holds with ⟨kind, offset⟩
  rcases made second isSecond obj' holds' with ⟨kind', offset'⟩
  rw [same] at kind offset
  exact eq_of_place (kind.symm.trans kind') (offset.symm.trans offset')

/-- When the attributes of a list are current or unset, all their objects are removed. -/
theorem Waiting.deleteAll_tried (waiting : Waiting reached leaked manager) {attrs : List IpcAttr}
    (distinct : attrs.Nodup)
    (current : ∀ attr ∈ attrs, attr ∈ creations.take d ∨ tried.attr attr = none) :
    ∃ after, attrs.foldlM deleteIpc tried = some after ∧ after.attr = tried.attr ∧
      after.created = tried.created ∧ after.Booked ∧
      ∀ obj, obj ∈ after.own ↔
        obj ∈ tried.own ∧ ∀ attr ∈ attrs, tried.attr attr ≠ some obj := by
  have booked : tried.Booked := by
    rw [isTried]
    exact waiting.booked.addAll _
  have owned : attrs.filterMap tried.attr ⊆ tried.own := by
    intro obj mem
    rcases List.mem_filterMap.mp mem with ⟨attr, isAttr, holds⟩
    rcases current attr isAttr with made | unset
    · rcases waiting.attr_tried isTried made with ⟨obj', isOwn, _, holds', _⟩
      rw [holds] at holds'
      rw [Option.some.inj holds']
      exact isOwn
    · rw [unset] at holds
      cases holds
  rcases deleteAll_of_current (waiting.nodup_attrs isTried distinct current) owned with
    ⟨after, gone, sameAttr, sameCreated, sameOwn⟩
  refine ⟨after, gone, sameAttr, sameCreated, booked.deleteAll gone, ?_⟩
  intro obj
  rw [sameOwn, booked.nodup_own.mem_sdiff_iff, List.mem_filterMap]
  simp only [not_exists, not_and, ne_eq]

/-- The handler of an attempt that got as far as the earlier ones. -/
theorem Waiting.handle_tried (waiting : Waiting reached leaked manager) (failed : d < 7)
    (deeper : reached ≤ min d 5) :
    ∃ after, tried.handle = some after ∧
      Waiting (min d 5) (if d = 6 then (key + procStates.offset) :: leaked else leaked) after := by
  have covered : ∀ attr ∈ handled, ∀ d < 7,
      attr ∈ creations.take d ↔ attr ∈ creations.take (min d 5) := by decide
  have unhandled : ∀ attr ∈ creations, ∀ d < 7, attr ∈ creations.take d → attr ∉ handled →
      attr = procStates ∧ d = 6 := by decide
  have unset : ∀ attr ∈ handled, attr ∉ creations.take d → tried.attr attr = none := by
    intro attr isHandled notMade
    rw [attr_tried_of_notMem isTried notMade]
    apply waiting.unset attr isHandled
    intro early
    exact notMade (List.take_subset_take_left _ (deeper.trans (min_le_left d 5)) early)
  have current : ∀ attr ∈ handled, attr ∈ creations.take d ∨ tried.attr attr = none :=
    fun attr isHandled => or_iff_not_imp_left.mpr (unset attr isHandled)
  rcases waiting.deleteAll_tried isTried (by decide) current with
    ⟨after, gone, sameAttr, sameCreated, booked, own⟩
  refine ⟨after, gone, booked, ?_, ?_, ?_⟩
  · intro attr isHandled made
    rw [← covered attr isHandled d failed] at made
    rcases waiting.attr_tried isTried made with ⟨obj, isOwn, _, holds, _⟩
    refine ⟨obj, ?_, by rw [sameAttr, holds], ?_⟩
    · rw [sameCreated, isTried]
      apply (waiting.booked.addAll _).mem_created
      rw [← isTried]
      exact isOwn
    · intro left
      exact ((own obj).mp left).2 attr isHandled holds
  · intro attr isHandled notMade
    rw [← covered attr isHandled d failed] at notMade
    rw [sameAttr]
    exact unset attr isHandled notMade
  · intro kind place
    constructor
    · rintro ⟨obj, left, rfl, rfl⟩
      rcases (own obj).mp left with ⟨isOwn, notHandled⟩
      rcases own_tried isTried isOwn with old | ⟨attr, made, holds⟩
      · have isLeaked := (waiting.places obj.kind obj.key).mp ⟨obj, old, rfl, rfl⟩
        refine ⟨isLeaked.1, ?_⟩
        split
        case isTrue => exact List.mem_cons_of_mem _ isLeaked.2
        case isFalse => exact isLeaked.2
      · rcases unhandled attr (mem_creations attr) d failed made
          (fun isHandled => notHandled attr isHandled holds) with ⟨rfl, rfl⟩
        rcases waiting.attr_tried isTried made with ⟨obj', _, _, holds', kind, offset⟩
        rw [holds] at holds'
        rw [Option.some.inj holds', kind, offset, if_pos rfl]
        exact ⟨rfl, List.mem_cons_self⟩
    · rintro ⟨rfl, isLeaked⟩
      have old : ∀ place ∈ leaked, ∃ obj ∈ after.own, obj.kind = .shm ∧ obj.key = place := by
        intro place isLeaked
        rcases (waiting.places .shm place).mpr ⟨rfl, isLeaked⟩ with ⟨obj, isOwn, isPlace⟩
        refine ⟨obj, (own obj).mpr ⟨own_subset_tried isTried isOwn, ?_⟩, isPlace⟩
        intro attr isHandled holds
        rcases current attr isHandled with made | isUnset
        · rcases waiting.attr_tried isTried made with ⟨obj', _, isNew, holds', _⟩
          rw [holds] at holds'
          cases holds'
          exact isNew (waiting.booked.mem_created isOwn)
        · rw [isUnset] at holds
          cases holds
      split at isLeaked
      case isFalse => exact old place isLeaked
      case isTrue deep =>
        rcases List.mem_cons.mp isLeaked with rfl | earlier
        · have made : procStates ∈ creations.take d := by
            rw [deep]
            decide
          rcases waiting.attr_tried isTried made with ⟨obj, isOwn, _, holds, place⟩
          refine ⟨obj, (own obj).mpr ⟨isOwn, ?_⟩, place⟩
          intro attr isHandled holds'
          rcases current attr isHandled with made' | isUnset
          · rcases waiting.attr_tried isTried made' with ⟨obj', _, _, holds'', place'⟩
            rw [holds'] at holds''
            cases holds''
            have same := eq_of_place (place'.1.symm.trans place.1) (place'.2.symm.trans place.2)
            rw [same] at isHandled
            exact absurd isHandled (by decide)
          · rw [isUnset] at holds'
            cases holds'
        · exact old place earlier

/-- The handler of an attempt that got less far than an earlier one raises. -/
theorem Waiting.handle_raises (waiting : Waiting reached leaked manager) (early : reached ≤ 5)
    (shallower : d < reached) : tried.handle = none := by
  have next : ∀ reached ∈ List.range 6, ∀ d ∈ List.range 6, d < reached →
      ∃ attr ∈ handled, attr ∈ creations.take reached ∧ attr ∉ creations.take d := by decide
  rcases next reached (List.mem_range.mpr (Nat.lt_succ_of_le early)) d
    (List.mem_range.mpr (Nat.lt_succ_of_le (shallower.le.trans early))) shallower with
    ⟨attr, isHandled, before, notMade⟩
  rcases waiting.stale attr isHandled before with ⟨obj, isCreated, holds, gone⟩
  apply deleteAll_of_stale isHandled
  · rw [attr_tried_of_notMem isTried notMade]
    exact holds
  · intro isOwn
    rcases own_tried isTried isOwn with old | ⟨other, made, holds'⟩
    · exact gone old
    · rcases waiting.attr_tried isTried made with ⟨obj', _, isNew, holds'', _⟩
      rw [holds'] at holds''
      cases holds''
      exact isNew isCreated

/-- When the loop ends, the manager is tidy unless an earlier attempt left something. -/
theorem Waiting.tidy_iff (waiting : Waiting reached leaked manager) (whole : d = 7) :
    tried.Tidy ↔ leaked = [] := by
  have made : ∀ attr, attr ∈ creations.take d := by
    intro attr
    rw [whole]
    exact mem_creations attr
  have booked : tried.Booked := by
    rw [isTried]
    exact waiting.booked.addAll _
  constructor
  · intro tidy
    by_contra left
    rcases List.exists_mem_of_ne_nil leaked left with ⟨place, isLeaked⟩
    rcases (waiting.places .shm place).mpr ⟨rfl, isLeaked⟩ with ⟨obj, isOwn, _⟩
    rcases (tidy.own obj).mp (own_subset_tried isTried isOwn) with ⟨attr, holds⟩
    rcases waiting.attr_tried isTried (made attr) with ⟨obj', _, isNew, holds', _⟩
    rw [holds] at holds'
    cases holds'
    exact isNew (waiting.booked.mem_created isOwn)
  · intro clean
    have own : ∀ obj, obj ∈ tried.own ↔ ∃ attr, tried.attr attr = some obj := by
      intro obj
      constructor
      · intro isOwn
        rcases own_tried isTried isOwn with old | ⟨attr, _, holds⟩
        · have isLeaked := ((waiting.places obj.kind obj.key).mp ⟨obj, old, rfl, rfl⟩).2
          rw [clean] at isLeaked
          cases isLeaked
        · exact ⟨attr, holds⟩
      · rintro ⟨attr, holds⟩
        rcases waiting.attr_tried isTried (made attr) with ⟨obj', isOwn, _, holds', _⟩
        rw [holds] at holds'
        cases holds'
        exact isOwn
    constructor
    case set =>
      intro attr
      rcases waiting.attr_tried isTried (made attr) with ⟨obj, _, _, holds, _⟩
      rw [holds]
      rfl
    case own => exact own
    case removed =>
      intro obj isCreated unheld
      apply booked.count_removed isCreated
      intro isOwn
      rcases (own obj).mp isOwn with ⟨attr, holds⟩
      exact unheld attr holds

/-- `remove` leaves the semaphore of the states. -/
theorem Waiting.not_removes (waiting : Waiting reached leaked manager) (whole : d = 7) :
    ¬ tried.Removes := by
  have made : ∀ attr, attr ∈ creations.take d := by
    intro attr
    rw [whole]
    exact mem_creations attr
  rintro ⟨after, gone, none_left⟩
  have distinct : removals.Nodup := by decide
  rcases waiting.deleteAll_tried isTried distinct (fun attr _ => Or.inl (made attr)) with
    ⟨after', gone', _, _, _, own⟩
  rw [remove, gone'] at gone
  cases gone
  rcases waiting.attr_tried isTried (made stateSem) with ⟨obj, isOwn, _, holds, place⟩
  apply none_left stateSem obj holds
  refine (own obj).mpr ⟨isOwn, ?_⟩
  intro attr isRemoved holds'
  rcases waiting.attr_tried isTried (made attr) with ⟨obj', _, _, holds'', place'⟩
  rw [holds'] at holds''
  cases holds''
  have same := eq_of_place (place'.1.symm.trans place.1) (place'.2.symm.trans place.2)
  rw [same] at isRemoved
  exact absurd isRemoved (by decide)

end Tried

/-- What the loop comes to, by the depths of its attempts. -/
theorem Waiting.setup (waiting : Waiting reached leaked manager) (early : reached ≤ 5)
    (keys : List Nat) :
    match setup host keys manager with
    | .raised => ¬ (reached :: (failures host leaked keys).map (min · 5)).Pairwise (· ≤ ·)
    | .retrying _ => (reached :: (failures host leaked keys).map (min · 5)).Pairwise (· ≤ ·) ∧
        ends host leaked keys = false
    | .ended after => (reached :: (failures host leaked keys).map (min · 5)).Pairwise (· ≤ ·) ∧
        ends host leaked keys = true ∧ ¬ after.Removes ∧
        (after.Tidy ↔ leaked = [] ∧ 6 ∉ failures host leaked keys) := by
  induction keys generalizing reached leaked manager with
  | nil => exact ⟨List.pairwise_singleton _ _, rfl⟩
  | cons key rest inductionHypothesis =>
      unfold IpcManager.setup failures ends
      rw [waiting.createAll_eq]
      generalize attempt : (creations.take (depth host key leaked)).foldl (add key) manager = tried
      by_cases whole : depth host key leaked = 7
      · simp only [whole, decide_true, if_true, Bool.true_or]
        refine ⟨List.pairwise_singleton _ _, trivial, waiting.not_removes attempt.symm whole, ?_⟩
        rw [waiting.tidy_iff attempt.symm whole]
        simp
      · have failed : depth host key leaked < 7 := lt_of_le_of_ne depth_le whole
        simp only [whole, decide_false, if_false, Bool.false_or]
        by_cases deeper : reached ≤ min (depth host key leaked) 5
        · rcases waiting.handle_tried attempt.symm failed deeper with ⟨after, handled, waiting'⟩
          have later := inductionHypothesis waiting' (min_le_right _ 5)
          have chain : ∀ depths : List Nat,
              (reached :: min (depth host key leaked) 5 :: depths).Pairwise (· ≤ ·) ↔
                (min (depth host key leaked) 5 :: depths).Pairwise (· ≤ ·) := by
            intro depths
            constructor
            · exact fun sorted => (List.pairwise_cons.mp sorted).2
            · intro sorted
              refine List.pairwise_cons.mpr ⟨?_, sorted⟩
              intro next mem
              rcases List.mem_cons.mp mem with rfl | mem'
              · exact deeper
              · exact deeper.trans ((List.pairwise_cons.mp sorted).1 next mem')
          have clean : (leak host key leaked = [] ∧ 6 ∉ failures host (leak host key leaked) rest) ↔
              leaked = [] ∧
                6 ∉ depth host key leaked :: failures host (leak host key leaked) rest := by
            rw [List.mem_cons, not_or, ← and_assoc]
            apply and_congr_left
            intro _
            unfold leak
            split
            case isTrue deep => simp [deep]
            case isFalse notDeep => simp [Ne.symm notDeep]
          rw [handled, List.map_cons, chain]
          change Waiting _ (leak host key leaked) after at waiting'
          simp only [← clean]
          exact later
        · have raises := waiting.handle_raises attempt.symm early (by omega)
          rw [raises]
          intro sorted
          rw [List.map_cons] at sorted
          exact deeper ((List.pairwise_cons.mp sorted).1 _ List.mem_cons_self)

end Loop

end IpcManager

end Difftest.Fuzzer
