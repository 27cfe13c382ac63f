import RapidLlm.Lib.Outcome
import RapidLlm.Engine.BlockPool

/-!
# RapidLlm.Distributed.SequenceParallelPass

**Marking the boundaries of a sequence-parallel region** (`SequenceParallelPass` of
`distributed/sequence_parallel.py`). A region is only right as a set of boundaries: the pass marks
all four projections of every decoder block, or none.

Modules are shared in a tree, so a walk remembers the ones it has been to, and marks are kept by
identity. `walk_closed` is what makes the clearing complete: a walk from nothing leaves no module
out. From there a run of the pass depends on nothing an earlier run left (`apply_marked`).
-/

namespace RapidLlm

/-! ### Modules -/

/-- The attributes `_SP_ATTRS` that mark a boundary. -/
inductive SpMark
  | gBar
  | g
  deriving DecidableEq, Repr

/-- What the pass looks at in a module: its identity, its class, whether the two stages of a
decoder block are callable on it, and `reduce_results`, true where it is not an attribute. -/
structure ModuleNode where
  id : Nat
  className : String
  attnStage : Bool
  mlpStage : Bool
  reduceResults : Bool
  deriving DecidableEq, Repr

/-- `module._modules`, in order. -/
inductive Submodules
  | nil
  | cons (name : String) (node : ModuleNode) (children rest : Submodules)
  deriving DecidableEq

/-- A module with everything below it. -/
structure ModuleRef where
  node : ModuleNode
  children : Submodules
  deriving DecidableEq

namespace Submodules

/-- `getattr(module, name, None)`, for a name of a submodule. -/
def lookup (part : String) : Submodules → Option ModuleRef
  | nil => none
  | cons name node children rest => if name = part then some ⟨node, children⟩ else rest.lookup part

/-- The modules themselves. -/
def direct : Submodules → List ModuleRef
  | nil => []
  | cons _ node children rest => ⟨node, children⟩ :: rest.direct

/-- Every place below, a shared module at each of its places. -/
def descendants : Submodules → List ModuleRef
  | nil => []
  | cons _ node children rest => ⟨node, children⟩ :: (children.descendants ++ rest.descendants)

/-- The loop of `named_modules` over submodules: those it has not been to, each with its name and
those below it, and the memo it leaves. -/
def walk (pre : String) : Submodules → List Nat → List (String × ModuleRef) × List Nat
  | nil, memo => ([], memo)
  | cons name node children rest, memo =>
    let full := pre ++ (if pre = "" then "" else ".") ++ name
    if memo.contains node.id then rest.walk pre memo
    else
      let inner := children.walk full (node.id :: memo)
      let after := rest.walk pre inner.2
      ((full, ⟨node, children⟩) :: (inner.1 ++ after.1), after.2)

end Submodules

/-- A model: modules of one identity are one module. -/
structure ModuleTree where
  root : ModuleRef
  identity : ∀ module ∈ root :: root.children.descendants,
    ∀ module' ∈ root :: root.children.descendants, module.node.id = module'.node.id →
      module = module'

namespace ModuleTree

/-- Every place of the tree. -/
def places (model : ModuleTree) : List ModuleRef := model.root :: model.root.children.descendants

/-- `model.named_modules()`. -/
def namedModules (model : ModuleTree) : List (String × ModuleRef) :=
  ("", model.root) :: (model.root.children.walk "" [model.root.node.id]).1

end ModuleTree

/-! ### The pass -/

/-- A row of `_ROLES`. -/
structure SpRole where
  path : List String
  accepted : List String
  attr : SpMark

/-- `_ROLES`. -/
def spRoles : List SpRole :=
  [⟨["self_attn", "qkv_proj"], ["ColumnParallelLinear", "QKVParallelLinear"], .g⟩,
    ⟨["self_attn", "o_proj"], ["RowParallelLinear"], .gBar⟩,
    ⟨["mlp", "gate_up_proj"], ["ColumnParallelLinear"], .g⟩,
    ⟨["mlp", "down_proj"], ["RowParallelLinear"], .gBar⟩]

/-- `_is_block`. -/
def ModuleRef.isBlock (module : ModuleRef) : Bool := module.node.attnStage && module.node.mlpStage

/-- `_resolve`. -/
def ModuleRef.resolve (root : ModuleRef) : List String → Option ModuleRef
  | [] => some root
  | part :: path => (root.children.lookup part).bind fun module => module.resolve path

/-- A boundary: its name, the module and the mark it gets. -/
structure Boundary where
  name : String
  module : ModuleRef
  attr : SpMark

/-- The boundary of a role in a block, or the refusal. -/
def boundaryOf (name : String) (block : ModuleRef) (role : SpRole) : Except String Boundary :=
  let full := name ++ "." ++ ".".intercalate role.path
  match block.resolve role.path with
  | none => .error (full ++ " is missing")
  | some module =>
    if !role.accepted.contains module.node.className then
      .error (full ++ " is " ++ module.node.className ++ ", not one of " ++
        "/".intercalate role.accepted)
    else if role.attr = .gBar ∧ module.node.reduceResults = false then
      .error (full ++ " sets reduce_results=False")
    else .ok ⟨full, module, role.attr⟩

/-- `_boundaries`. -/
def boundaries (model : ModuleTree) : Except String (List Boundary) :=
  let blocks := model.namedModules.filter fun entry => entry.2.isBlock
  if blocks.isEmpty then .error "the model exposes no two-stage decoder block"
  else (blocks.mapM fun entry => spRoles.mapM (boundaryOf entry.1 entry.2)).map List.flatten

/-- Which attributes are set on which module. -/
abbrev SpMarks := Nat → SpMark → Bool

/-- `delattr` of both attributes on a module. -/
def SpMarks.clear (marks : SpMarks) (module : ModuleRef) : SpMarks :=
  Function.update marks module.node.id fun _ => false

/-- `setattr(module, attr, True)`. -/
def SpMarks.set (marks : SpMarks) (boundary : Boundary) : SpMarks :=
  Function.update marks boundary.module.node.id
    (Function.update (marks boundary.module.node.id) boundary.attr true)

/-- `SequenceParallelPass`. -/
structure SequenceParallelPass where
  enabled : Bool
  matched : List String
  refusal : Option String

/-- `SequenceParallelPass.apply`: the pass, the marks and the count it returns. -/
def SequenceParallelPass.apply (pass : SequenceParallelPass) (worldSize : Nat) (model : ModuleTree)
    (marks : SpMarks) : SequenceParallelPass × SpMarks × Nat :=
  let cleared := (model.namedModules.map Prod.snd).foldl SpMarks.clear marks
  if !pass.enabled then (⟨pass.enabled, [], none⟩, cleared, 0)
  else if worldSize ≤ 1 then
    (⟨pass.enabled, [], some "tensor-parallel world size is 1"⟩, cleared, 0)
  else
    match boundaries model with
    | .error refusal => (⟨pass.enabled, [], some refusal⟩, cleared, 0)
    | .ok found =>
      (⟨pass.enabled, found.map Boundary.name, none⟩, found.foldl SpMarks.set cleared,
        found.length)

/-- One run after another, each with a pass of its own on a grid of its own. -/
def applyRuns (model : ModuleTree) :
    List (SequenceParallelPass × Nat) → SequenceParallelPass → SpMarks →
      SequenceParallelPass × SpMarks
  | [], last, marks => (last, marks)
  | (pass, worldSize) :: runs, _, marks =>
    let out := pass.apply worldSize model marks
    applyRuns model runs out.1 out.2.1

/-! ### A walk leaves no module out -/

namespace Submodules

theorem mem_descendants_of_direct {module : ModuleRef} : ∀ {forest : Submodules},
    module ∈ forest.direct → module ∈ forest.descendants
  | cons _ _ _ rest, h => by
      rcases List.mem_cons.mp h with rfl | h
      · exact List.mem_cons_self
      · exact List.mem_cons_of_mem _ (List.mem_append_right _ (mem_descendants_of_direct h))

theorem direct_of_lookup {part : String} {module : ModuleRef} : ∀ {forest : Submodules},
    forest.lookup part = some module → module ∈ forest.direct
  | cons name _ _ rest, h => by
      unfold lookup at h
      split at h
      · obtain rfl := Option.some.inj h
        exact List.mem_cons_self
      · exact List.mem_cons_of_mem _ (direct_of_lookup h)

theorem mem_descendants_trans {module child : ModuleRef} : ∀ {forest : Submodules},
    module ∈ forest.descendants → child ∈ module.children.descendants →
      child ∈ forest.descendants
  | cons _ _ children rest, h, hchild => by
      rcases List.mem_cons.mp h with rfl | h
      · exact List.mem_cons_of_mem _ (List.mem_append_left _ hchild)
      · rcases List.mem_append.mp h with h | h
        · exact List.mem_cons_of_mem _ (List.mem_append_left _ (mem_descendants_trans h hchild))
        · exact List.mem_cons_of_mem _ (List.mem_append_right _ (mem_descendants_trans h hchild))

/-- What a walk yields, and how the memo grows with it. -/
theorem walk_spec (pre : String) (forest : Submodules) (memo : List Nat) :
    memo ⊆ (forest.walk pre memo).2 ∧
      (∀ entry ∈ (forest.walk pre memo).1, entry.2 ∈ forest.descendants) ∧
      ∀ id ∈ (forest.walk pre memo).2, id ∈ memo ∨
        ∃ entry ∈ (forest.walk pre memo).1, entry.2.node.id = id := by
  induction forest generalizing pre memo with
  | nil => exact ⟨List.Subset.refl _, nofun, fun id hid => .inl hid⟩
  | cons name node children rest ihChildren ihRest =>
    unfold walk
    dsimp only
    split
    · obtain ⟨hmemo, hentries, hids⟩ := ihRest pre memo
      refine ⟨hmemo, fun entry h => ?_, hids⟩
      exact List.mem_cons_of_mem _ (List.mem_append_right _ (hentries entry h))
    · obtain ⟨hmemo, hentries, hids⟩ :=
        ihChildren (pre ++ (if pre = "" then "" else ".") ++ name) (node.id :: memo)
      obtain ⟨hmemo', hentries', hids'⟩ := ihRest pre
        (children.walk (pre ++ (if pre = "" then "" else ".") ++ name) (node.id :: memo)).2
      refine ⟨fun id h => hmemo' (hmemo (List.mem_cons_of_mem _ h)), ?_, fun id h => ?_⟩
      · intro entry h
        rcases List.mem_cons.mp h with rfl | h
        · exact List.mem_cons_self
        · refine List.mem_cons_of_mem _ ?_
          exact (List.mem_append.mp h).elim (fun h => List.mem_append_left _ (hentries entry h))
            fun h => List.mem_append_right _ (hentries' entry h)
      · rcases hids' id h with h | ⟨entry, hentry, rfl⟩
        · rcases hids id h with h | ⟨entry, hentry, rfl⟩
          · rcases List.mem_cons.mp h with rfl | h
            · exact .inr ⟨_, List.mem_cons_self, rfl⟩
            · exact .inl h
          · exact .inr ⟨entry, List.mem_cons_of_mem _ (List.mem_append_left _ hentry), rfl⟩
        · exact .inr ⟨entry, List.mem_cons_of_mem _ (List.mem_append_right _ hentry), rfl⟩

/-- The submodules of a walk, and those of every module it yields, are in the memo at its end. -/
theorem walk_closed (pre : String) (forest : Submodules) (memo : List Nat) :
    (∀ module ∈ forest.direct, module.node.id ∈ (forest.walk pre memo).2) ∧
      ∀ entry ∈ (forest.walk pre memo).1, ∀ module ∈ entry.2.children.direct,
        module.node.id ∈ (forest.walk pre memo).2 := by
  induction forest generalizing pre memo with
  | nil => exact ⟨nofun, nofun⟩
  | cons name node children rest ihChildren ihRest =>
    unfold walk
    dsimp only
    split
    · next hseen =>
      obtain ⟨hdirect, hentries⟩ := ihRest pre memo
      refine ⟨fun module h => ?_, hentries⟩
      rcases List.mem_cons.mp h with rfl | h
      · exact (rest.walk_spec pre memo).1 (List.contains_iff_mem.mp hseen)
      · exact hdirect module h
    · obtain ⟨hdirect, hentries⟩ :=
        ihChildren (pre ++ (if pre = "" then "" else ".") ++ name) (node.id :: memo)
      have hgrown := (children.walk_spec (pre ++ (if pre = "" then "" else ".") ++ name)
        (node.id :: memo)).1
      set inner := children.walk (pre ++ (if pre = "" then "" else ".") ++ name) (node.id :: memo)
      obtain ⟨hdirect', hentries'⟩ := ihRest pre inner.2
      have hgrown' := (rest.walk_spec pre inner.2).1
      refine ⟨fun module h => ?_, fun entry h module hmodule => ?_⟩
      · rcases List.mem_cons.mp h with rfl | h
        · exact hgrown' (hgrown List.mem_cons_self)
        · exact hdirect' module h
      · rcases List.mem_cons.mp h with rfl | h
        · exact hgrown' (hdirect module hmodule)
        · rcases List.mem_append.mp h with h | h
          · exact hgrown' (hentries entry h module hmodule)
          · exact hentries' entry h module hmodule

end Submodules

namespace ModuleTree

variable {model : ModuleTree} {module child : ModuleRef}

theorem child_mem (h : module ∈ model.places) (hchild : child ∈ module.children.direct) :
    child ∈ model.places := by
  have hbelow := Submodules.mem_descendants_of_direct hchild
  rcases List.mem_cons.mp h with rfl | h
  · exact List.mem_cons_of_mem _ hbelow
  · exact List.mem_cons_of_mem _ (Submodules.mem_descendants_trans h hbelow)

theorem namedModules_mem {entry : String × ModuleRef} (h : entry ∈ model.namedModules) :
    entry.2 ∈ model.places := by
  rcases List.mem_cons.mp h with rfl | h
  · exact List.mem_cons_self
  · exact List.mem_cons_of_mem _ ((Submodules.walk_spec _ _ _).2.1 entry h)

/-- The submodules of a yielded module are yielded. -/
theorem yields_child (h : module ∈ model.namedModules.map Prod.snd)
    (hchild : child ∈ module.children.direct) : child ∈ model.namedModules.map Prod.snd := by
  obtain ⟨entry, hentry, rfl⟩ := List.mem_map.mp h
  have hplace := child_mem (namedModules_mem hentry) hchild
  obtain ⟨hdirect, hclosed⟩ :=
    model.root.children.walk_closed "" [model.root.node.id]
  have hmemo : child.node.id ∈ (model.root.children.walk "" [model.root.node.id]).2 := by
    rcases List.mem_cons.mp hentry with rfl | hentry
    · exact hdirect child hchild
    · exact hclosed entry hentry child hchild
  rcases (model.root.children.walk_spec "" [model.root.node.id]).2.2 _ hmemo with
    hroot | ⟨other, hother, hid⟩
  · obtain rfl := model.identity child hplace model.root List.mem_cons_self
      (List.mem_singleton.mp hroot)
    exact List.mem_map.mpr ⟨_, List.mem_cons_self, rfl⟩
  · have hmem : other ∈ model.namedModules := List.mem_cons_of_mem _ hother
    obtain rfl := model.identity child hplace other.2 (namedModules_mem hmem) hid.symm
    exact List.mem_map_of_mem hmem

/-- **Every module of the tree is yielded.** -/
theorem places_yielded (h : module ∈ model.places) : module ∈ model.namedModules.map Prod.snd := by
  have hforest : ∀ forest : Submodules,
      (∀ child ∈ forest.direct, child ∈ model.namedModules.map Prod.snd) →
        ∀ child ∈ forest.descendants, child ∈ model.namedModules.map Prod.snd := by
    intro forest
    induction forest with
    | nil => exact fun _ => nofun
    | cons name node children rest ihChildren ihRest =>
      intro hdirect child hchild
      have hhead := hdirect _ List.mem_cons_self
      rcases List.mem_cons.mp hchild with rfl | hchild
      · exact hhead
      · rcases List.mem_append.mp hchild with hchild | hchild
        · exact ihChildren (fun child hdirect => yields_child hhead hdirect) child hchild
        · exact ihRest (fun child h => hdirect child (List.mem_cons_of_mem _ h)) child hchild
  have hroot : model.root ∈ model.namedModules.map Prod.snd :=
    List.mem_map.mpr ⟨_, List.mem_cons_self, rfl⟩
  rcases List.mem_cons.mp h with rfl | h
  · exact hroot
  · exact hforest _ (fun child hchild => yields_child hroot hchild) _ h

/-- What an attribute path leads to is a place of the tree. -/
theorem resolve_mem {path : List String} {found : ModuleRef} (h : module ∈ model.places)
    (hfound : module.resolve path = some found) : found ∈ model.places := by
  induction path generalizing module with
  | nil =>
    obtain rfl := Option.some.inj hfound
    exact h
  | cons part path ih =>
    obtain ⟨next, hnext, hfound⟩ := Option.bind_eq_some_iff.mp hfound
    exact ih (child_mem h (Submodules.direct_of_lookup hnext)) hfound

end ModuleTree

/-! ### What a run of the pass leaves -/

/-- What a resolved boundary is. -/
theorem boundaryOf_ok {name : String} {block : ModuleRef} {role : SpRole} {boundary : Boundary}
    (h : boundaryOf name block role = .ok boundary) :
    block.resolve role.path = some boundary.module ∧ boundary.attr = role.attr ∧
      boundary.name = name ++ "." ++ ".".intercalate role.path ∧
      (role.attr = .gBar → boundary.module.node.reduceResults = true) := by
  unfold boundaryOf at h
  dsimp only at h
  split at h
  · cases h
  · next module hmodule =>
    split_ifs at h with haccepted hreduce
    cases h
    refine ⟨hmodule, rfl, rfl, fun hattr => ?_⟩
    by_contra hfalse
    exact hreduce ⟨hattr, Bool.eq_false_iff.mpr hfalse⟩

/-- A boundary of the model: a role of one of its blocks, under the name the block is yielded
with. -/
structure Boundary.Of (model : ModuleTree) (boundary : Boundary) (block : String × ModuleRef)
    (role : SpRole) : Prop where
  yielded : block ∈ model.namedModules
  isBlock : block.2.isBlock = true
  known : role ∈ spRoles
  name : boundary.name = block.1 ++ "." ++ ".".intercalate role.path
  resolves : block.2.resolve role.path = some boundary.module
  attr : boundary.attr = role.attr
  reduces : role.attr = .gBar → boundary.module.node.reduceResults = true

/-- `_boundaries` returns the four boundaries of every block, and of one at least. -/
theorem boundaries_ok {model : ModuleTree} {found : List Boundary}
    (h : boundaries model = .ok found) :
    (∃ block ∈ model.places, block.isBlock = true) ∧
      (∀ block ∈ model.places, block.isBlock = true → ∀ role ∈ spRoles,
        ∃ boundary ∈ found, ∃ name, boundary.Of model (name, block) role) ∧
      ∀ boundary ∈ found, ∃ block role, boundary.Of model block role := by
  unfold boundaries at h
  dsimp only at h
  split at h
  · cases h
  · next hblocks =>
    rw [List.isEmpty_iff] at hblocks
    obtain ⟨perBlock, hloop, rfl⟩ := map_eq_ok.mp h
    obtain ⟨hto, hfrom⟩ := mapM_mem hloop
    have hof : ∀ entry ∈ model.namedModules, entry.2.isBlock = true → ∀ role ∈ spRoles,
        ∀ boundary, boundaryOf entry.1 entry.2 role = .ok boundary →
          boundary.Of model entry role := by
      intro entry hentry hblock role hrole boundary hboundary
      obtain ⟨hresolve, hattr, hname, hreduce⟩ := boundaryOf_ok hboundary
      exact ⟨hentry, hblock, hrole, hname, hresolve, hattr, hreduce⟩
    refine ⟨?_, ?_, ?_⟩
    · obtain ⟨entry, hentry⟩ := List.exists_mem_of_ne_nil _ hblocks
      obtain ⟨hentry, hblock⟩ := List.mem_filter.mp hentry
      exact ⟨entry.2, ModuleTree.namedModules_mem hentry, hblock⟩
    · intro block hplace hblock role hrole
      obtain ⟨entry, hentry, rfl⟩ := List.mem_map.mp (ModuleTree.places_yielded hplace)
      obtain ⟨ofBlock, hofBlock, hroles⟩ := hto entry (List.mem_filter.mpr ⟨hentry, hblock⟩)
      obtain ⟨boundary, hboundary, hrun⟩ := (mapM_mem hroles).1 role hrole
      exact ⟨boundary, List.mem_flatten.mpr ⟨ofBlock, hofBlock, hboundary⟩, entry.1,
        hof entry hentry hblock role hrole boundary hrun⟩
    · intro boundary hboundary
      obtain ⟨ofBlock, hofBlock, hboundary⟩ := List.mem_flatten.mp hboundary
      obtain ⟨entry, hentry, hroles⟩ := hfrom ofBlock hofBlock
      obtain ⟨hentry, hblock⟩ := List.mem_filter.mp hentry
      obtain ⟨role, hrole, hrun⟩ := (mapM_mem hroles).2 boundary hboundary
      exact ⟨entry, role, hof entry hentry hblock role hrole boundary hrun⟩

namespace SpMarks

/-- Clearing reaches every module it is told of, and brings no mark back. -/
theorem foldl_clear (modules : List ModuleRef) (marks : SpMarks) (id : Nat) (attr : SpMark) :
    ((∃ module ∈ modules, module.node.id = id) → modules.foldl clear marks id attr = false) ∧
      (marks id attr = false → modules.foldl clear marks id attr = false) := by
  induction modules generalizing marks with
  | nil => exact ⟨nofun, fun h => h⟩
  | cons module modules ih =>
    obtain ⟨hlisted, hkept⟩ := ih (marks.clear module)
    refine ⟨fun ⟨other, hmem, hid⟩ => ?_, fun h => hkept ?_⟩
    · rcases List.mem_cons.mp hmem with rfl | hmem
      · exact hkept (by simp [clear, hid])
      · exact hlisted ⟨other, hmem, hid⟩
    · by_cases hid : id = module.node.id
      · simp [clear, hid]
      · simpa [clear, hid] using h

/-- What is marked after the loop that sets the marks. -/
theorem foldl_set (found : List Boundary) (marks : SpMarks) (id : Nat) (attr : SpMark) :
    found.foldl set marks id attr = true ↔
      marks id attr = true ∨ ∃ boundary ∈ found, boundary.module.node.id = id ∧
        boundary.attr = attr := by
  induction found generalizing marks with
  | nil => simp
  | cons boundary found ih =>
    have hset : marks.set boundary id attr = true ↔
        marks id attr = true ∨ boundary.module.node.id = id ∧ boundary.attr = attr := by
      by_cases hid : id = boundary.module.node.id
      · subst hid
        by_cases hattr : attr = boundary.attr
        · simp [set, hattr]
        · simp [set, hattr, Ne.symm hattr]
      · simp [set, hid, Ne.symm hid]
    rw [List.foldl_cons, ih, hset, or_assoc]
    simp only [List.mem_cons, exists_eq_or_imp]

end SpMarks

/-- **What the pass leaves on a model**: `matched` names boundaries of its blocks, a module of the
model carries a mark exactly where one of them puts it, and every role of every block is among
them, if any is. -/
structure Marked (model : ModuleTree) (pass : SequenceParallelPass) (marks : SpMarks)
    (found : List Boundary) : Prop where
  matched : pass.matched = found.map Boundary.name
  boundary : ∀ boundary ∈ found, ∃ block role, boundary.Of model block role
  marks : ∀ module ∈ model.places, ∀ attr, marks module.node.id attr = true ↔
    ∃ boundary ∈ found, boundary.module = module ∧ boundary.attr = attr
  every : found ≠ [] → ∀ block ∈ model.places, block.isBlock = true → ∀ role ∈ spRoles,
    ∃ boundary ∈ found, ∃ name, boundary.Of model (name, block) role

namespace Marked

variable {model : ModuleTree} {pass : SequenceParallelPass} {marks : SpMarks}
  {found : List Boundary}

/-- No mark is left anywhere, or every role of every block is marked. -/
theorem all_or_none (h : Marked model pass marks found) :
    (pass.matched = [] ∧ ∀ module ∈ model.places, ∀ attr, marks module.node.id attr = false) ∨
      (pass.matched ≠ [] ∧ ∀ block ∈ model.places, block.isBlock = true → ∀ role ∈ spRoles,
        ∃ module, block.resolve role.path = some module ∧
          marks module.node.id role.attr = true) := by
  by_cases hfound : found = []
  · refine .inl ⟨by rw [h.matched, hfound, List.map_nil], fun module hmodule attr => ?_⟩
    rw [Bool.eq_false_iff, ne_eq, h.marks module hmodule attr, hfound]
    simp
  · refine .inr ⟨by simpa [h.matched] using hfound, fun block hplace hblock role hrole => ?_⟩
    obtain ⟨boundary, hboundary, name, hof⟩ := h.every hfound block hplace hblock role hrole
    refine ⟨boundary.module, hof.resolves, ?_⟩
    rw [h.marks _ (ModuleTree.resolve_mem hplace hof.resolves)]
    exact ⟨boundary, hboundary, rfl, hof.attr⟩

end Marked

/-- **One run of the pass**, over whatever marks there were. -/
theorem SequenceParallelPass.apply_marked (pass : SequenceParallelPass) (worldSize : Nat)
    (model : ModuleTree) (marks : SpMarks) :
    ∃ found, Marked model (pass.apply worldSize model marks).1
      (pass.apply worldSize model marks).2.1 found := by
  have hcleared : ∀ module ∈ model.places, ∀ attr,
      (model.namedModules.map Prod.snd).foldl SpMarks.clear marks module.node.id attr = false :=
    fun module hmodule attr => (SpMarks.foldl_clear _ marks _ attr).1
      ⟨module, ModuleTree.places_yielded hmodule, rfl⟩
  have hnone : ∀ refusal, Marked model ⟨pass.enabled, [], refusal⟩
      ((model.namedModules.map Prod.snd).foldl SpMarks.clear marks) [] := fun refusal =>
    ⟨rfl, nofun, fun module hmodule attr => by simp [hcleared module hmodule attr],
      fun h => absurd rfl h⟩
  unfold SequenceParallelPass.apply
  dsimp only
  split
  · exact ⟨[], hnone _⟩
  · split
    · exact ⟨[], hnone _⟩
    · split
      · exact ⟨[], hnone _⟩
      · next found hfound =>
        obtain ⟨-, hevery, hof⟩ := boundaries_ok hfound
        refine ⟨found, rfl, hof, fun module hmodule attr => ?_, fun _ => hevery⟩
        rw [SpMarks.foldl_set, hcleared module hmodule attr]
        constructor
        · rintro (h | ⟨boundary, hboundary, hid, hattr⟩)
          · cases h
          · obtain ⟨block, role, hblock⟩ := hof boundary hboundary
            have hplace := ModuleTree.resolve_mem (ModuleTree.namedModules_mem hblock.yielded)
              hblock.resolves
            exact ⟨boundary, hboundary, model.identity _ hplace _ hmodule hid, hattr⟩
        · rintro ⟨boundary, hboundary, rfl, hattr⟩
          exact .inr ⟨boundary, hboundary, rfl, hattr⟩

/-- Any number of runs leave what the last of them does. -/
theorem applyRuns_marked (model : ModuleTree) (runs : List (SequenceParallelPass × Nat))
    (hruns : runs ≠ []) (last : SequenceParallelPass) (marks : SpMarks) :
    ∃ found, Marked model (applyRuns model runs last marks).1
      (applyRuns model runs last marks).2 found := by
  induction runs generalizing last marks with
  | nil => exact absurd rfl hruns
  | cons run runs ih =>
    cases runs with
    | nil => exact run.1.apply_marked run.2 model marks
    | cons next rest =>
      exact ih (List.cons_ne_nil _ _) (run.1.apply run.2 model marks).1
        (run.1.apply run.2 model marks).2.1

end RapidLlm
