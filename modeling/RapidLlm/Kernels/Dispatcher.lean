import Mathlib.Algebra.Order.Field.Rat
import Mathlib.Data.Char
import Mathlib.Data.Finset.Basic
import Mathlib.Data.List.Lex
import Mathlib.Data.List.Sort
import Mathlib.Data.Prod.Lex
import Mathlib.Order.WithBot
import RapidLlm.Engine.BlockPool
import RapidLlm.Lib.Memo
import RapidLlm.Lib.Run

/-!
# RapidLlm.Kernels.Dispatcher

**Kernel dispatch** (`kernels/dispatcher`): a registry of specs, one for every implementation of
an operator. `dispatch` filters those of an operator by the gates of a key and ranks the rest;
`step_prepare_for` looks up the hook of the winner ahead of a step. Each remembers its answers,
the first by key, the second by operator.

The decisions are a memo of the decision from scratch, in every run (`Coherent`). The hooks are
not: a registration leaves them in place, they do not depend on the backend pin, and the row a
hook is taken from is ranked by a key without a dtype, a scheme, dims and tags.
-/

namespace RapidLlm

/-- Operators, kernel names, backends, dtype and scheme labels, layout tags, import targets. -/
abbrev Label := List Char

/-! ### Platforms -/

structure PlatformInfo where
  deviceType : Label
  archMajor : Option Int
  archMinor : Option Int
  gpuName : Label
  deriving DecidableEq

/-- `PlatformInfo.compute_capability`. -/
def PlatformInfo.computeCapability (info : PlatformInfo) : Option (Int × Int) :=
  info.archMajor.map fun major => (major, info.archMinor.getD 0)

structure CapabilityRequirement where
  device : Label
  minCc : Option (Int × Int)
  maxCc : Option (Int × Int)
  deriving DecidableEq

/-- `CapabilityRequirement.matches`; versions compare as tuples. -/
def CapabilityRequirement.isMatch (req : CapabilityRequirement) (info : PlatformInfo) : Bool :=
  let cc := info.computeCapability
  decide (info.deviceType = req.device) &&
    (req.minCc.all fun low => cc.any fun cc => toLex low ≤ toLex cc) &&
    (req.maxCc.all fun high => cc.any fun cc => toLex cc ≤ toLex high)

/-- `capabilities_match`. -/
def capabilitiesMatch (reqs : List CapabilityRequirement) (info : PlatformInfo) : Bool :=
  reqs.isEmpty || reqs.any (·.isMatch info)

/-! ### Specs -/

inductive ConstraintKind
  | min
  | max
  | mod
  deriving DecidableEq

/-- A predicate over a dimension. One modulo zero raises at every dispatch, so there is none. -/
structure ShapeConstraint where
  dim : Label
  kind : ConstraintKind
  value : Int
  divides : kind = .mod → value ≠ 0
  deriving DecidableEq

/-- Symbolic dims, as a dict lists them. -/
abbrev Dims := List (Label × Int)

/-- `ShapeConstraint.satisfied_by`. -/
def ShapeConstraint.satisfiedBy (c : ShapeConstraint) (dims : Dims) : Bool :=
  match dims.lookup c.dim with
  | none => false
  | some d =>
    match c.kind with
    | .min => c.value ≤ d
    | .max => d ≤ c.value
    | .mod => d % c.value = 0

structure ShapeRequirement where
  hard : List ShapeConstraint := []
  prefer : List ShapeConstraint := []
  deriving DecidableEq

namespace ShapeRequirement

/-- `ShapeRequirement.is_feasible`. -/
def isFeasible (shape : ShapeRequirement) (dims : Dims) : Bool :=
  shape.hard.all (·.satisfiedBy dims)

/-- `ShapeRequirement.preference_score`. -/
def preferenceScore (shape : ShapeRequirement) (dims : Dims) : Nat :=
  shape.prefer.countP (·.satisfiedBy dims)

end ShapeRequirement

structure GoldenRecord where
  verified : Bool := false
  maxAbsDiff : Option ℚ := none
  baseline : Label := []
  deriving DecidableEq

structure KernelSpec where
  name : Label
  op : Label
  backend : Label
  target : Label
  available : Option Label := none
  capability : List CapabilityRequirement := []
  dtypes : List Label := []
  schemes : List Label := ["unquantized".toList]
  shape : ShapeRequirement := {}
  layout : List Label := []
  golden : GoldenRecord := {}
  priority : Int := 0
  graphSafe : Bool := true
  stepPrepare : Option Label := none
  deriving DecidableEq

/-- `[a-z]`. -/
def isLower (c : Char) : Bool := 'a' ≤ c ∧ c ≤ 'z'

/-- `[a-z0-9_]`. -/
def isLowerWord (c : Char) : Bool := isLower c || c.isDigit || c = '_'

/-- `[A-Za-z_]`. -/
def isNameStart (c : Char) : Bool := isLower c || 'A' ≤ c ∧ c ≤ 'Z' || c = '_'

/-- `[A-Za-z0-9_]`. -/
def isNameChar (c : Char) : Bool := isNameStart c || c.isDigit

/-- What a `$` leaves to match: a newline at the end is let through. -/
def beforeNewline (s : Label) : Label := if s.getLast? = some '\n' then s.dropLast else s

/-- `_OP_RE`. -/
def opMatches (op : Label) : Bool :=
  ((beforeNewline op).splitOn '.').all fun word =>
    word.head?.any isLower && word.all isLowerWord

/-- `_TARGET_RE`. -/
def targetMatches (ref : Label) : Bool :=
  match (beforeNewline ref).splitOn ':' with
  | [path, attr] =>
    path.head?.any isNameStart && path.all (fun c => isNameChar c || c = '.') &&
      attr.head?.any isNameStart && attr.all isNameChar
  | _ => false

/-- A label as an error quotes it. -/
def labelText (label : Label) : String := "'" ++ String.ofList label ++ "'"

namespace KernelSpec

/-- `KernelSpec.validate`. -/
def validate (spec : KernelSpec) : Except Raised Unit := do
  let head := spec.name.takeWhile (· ≠ '/')
  if spec.name = [] ∨ '/' ∉ spec.name then
    throw (.valueError s!"KernelSpec.name must be '<backend>/<impl>', got {labelText spec.name}")
  if head ≠ spec.backend then
    throw (.valueError (s!"name prefix {labelText head} != backend {labelText spec.backend} in " ++
      labelText spec.name))
  if !opMatches spec.op then
    throw (.valueError s!"KernelSpec.op must be a lowercase dotted id, got {labelText spec.op}")
  for (role, ref) in [("target", some spec.target), ("available", spec.available),
      ("step_prepare", spec.stepPrepare)] do
    match ref with
    | some ref =>
      if !targetMatches ref then
        throw (.valueError s!"KernelSpec.{role} must be 'module:attr', got {labelText ref}")
    | none => pure ()
  if spec.available = none ∧ spec.backend ≠ "native".toList then
    throw (.valueError (s!"{labelText spec.name}: non-native backend must declare an " ++
      "availability check"))

/-- `KernelSpec.dtype_ok`. -/
def dtypeOk (spec : KernelSpec) (dtype : Label) : Bool := spec.dtypes.isEmpty || dtype ∈ spec.dtypes

/-- `KernelSpec.scheme_ok`. -/
def schemeOk (spec : KernelSpec) (scheme : Label) : Bool := scheme ∈ spec.schemes

/-- `KernelSpec.shape_ok`. -/
def shapeOk (spec : KernelSpec) (dims : Dims) : Bool := spec.shape.isFeasible dims

/-- `KernelSpec.layout_missing`. -/
def layoutMissing (spec : KernelSpec) (available : Finset Label) : Finset Label :=
  spec.layout.toFinset \ available

end KernelSpec

/-! ### Keys and results -/

structure DispatchKey where
  op : Label
  dtype : Label
  scheme : Label
  shape : Dims
  layout : Finset Label
  platform : PlatformInfo
  forcedBackend : Option Label
  deriving DecidableEq

/-- Why a spec cannot serve a key, with what the reason quotes. -/
inductive Rejection
  | backend (found forced : Label)
  | unavailable (check : Label) (detail : String)
  | capability (needs : List CapabilityRequirement) (deviceType : Label)
  | dtype (found : Label) (served : List Label)
  | scheme (found : Label) (served : List Label)
  | shape (failed : List ShapeConstraint) (dims : Dims)
  | layout (missing : Finset Label)
  | golden
  deriving DecidableEq

structure Selected where
  spec : KernelSpec
  key : DispatchKey
  rejections : List (Label × Rejection)
  runnersUp : List KernelSpec
  deriving DecidableEq

/-- The `LookupError` of a dispatch. -/
inductive LookupError
  | unknownOp (op : Label) (registered : List Label)
  | noUsable (key : DispatchKey) (rejections : List (Label × Rejection))
  deriving DecidableEq

/-- A frozen latency; nothing where there is none or the lookup raises. -/
abbrev PerfProvider := KernelSpec → DispatchKey → Option ℚ

/-- What a process does not change: its platform, the results of the availability checks and of
the imports, each kept after the first. -/
structure DispatchHost (H : Type) where
  platform : PlatformInfo
  checkAvailable : Label → Bool × String
  resolveTarget : Label → Except Raised H

/-! ### Backend pins -/

/-- `os.environ.get`. -/
abbrev Environ := Label → Option Label

/-- `getenv`. -/
def getenv (environ : Environ) (name : Label) : Option Label :=
  match environ name with
  | some value => some value
  | none =>
    if "RAPID_LLM_".toList <+: name then
      environ ("LITE_LLAMA_".toList ++ name.drop "RAPID_LLM_".length)
    else none

/-- `op_backend_env`. -/
def opBackendEnv (op : Label) : Label :=
  "RAPID_LLM_".toList ++ (op.map fun c => if c = '.' then '_' else c.toUpper) ++ "_BACKEND".toList

/-- `_forced_backend`; an empty string pins nothing. -/
def forcedBackend (environ : Environ) (op : Label) (explicit : Option Label) : Option Label :=
  [explicit, getenv environ (opBackendEnv op),
    getenv environ "RAPID_LLM_FORCE_BACKEND".toList].findSome? (Option.filter (· ≠ []))

/-! ### The decision -/

section Decision

variable {H : Type} (host : DispatchHost H) (provider : PerfProvider)

/-- The library a spec needs is there. -/
def libraryAvailable (spec : KernelSpec) : Bool :=
  spec.available.all fun ref => (host.checkAvailable ref).1

/-- `_reject_reason`. -/
def rejectReason (spec : KernelSpec) (key : DispatchKey) : Option Rejection :=
  match key.forcedBackend.filter (spec.backend ≠ ·) with
  | some forced => some (.backend spec.backend forced)
  | none =>
  match spec.available.filter fun ref => !(host.checkAvailable ref).1 with
  | some ref => some (.unavailable ref (host.checkAvailable ref).2)
  | none =>
    let missing := spec.layoutMissing key.layout
    if !capabilitiesMatch spec.capability key.platform then
      some (.capability spec.capability key.platform.deviceType)
    else if !spec.dtypeOk key.dtype then some (.dtype key.dtype spec.dtypes)
    else if !spec.schemeOk key.scheme then some (.scheme key.scheme spec.schemes)
    else if !spec.shapeOk key.shape then
      some (.shape (spec.shape.hard.filter fun c => !c.satisfiedBy key.shape) key.shape)
    else if missing ≠ ∅ then some (.layout missing)
    else if !spec.golden.verified ∧ key.forcedBackend = none then some .golden
    else none

/-- What `_rank_key` compares: latency, preferences, priority and name, the smallest first. -/
abbrev RowRank := WithTop ℚ ×ₗ ℤ ×ₗ ℤ ×ₗ Label

/-- `_rank_key`. -/
def rankKey (spec : KernelSpec) (key : DispatchKey) : RowRank :=
  toLex (match provider spec key with | some ms => (ms : WithTop ℚ) | none => ⊤,
    toLex (-(spec.shape.preferenceScore key.shape : ℤ), toLex (-spec.priority, spec.name)))

/-- **The decision from scratch**: the rest of `dispatch` for the rows of the key's operator,
once there is no cached one. -/
def decision (registered : List Label) (specs : List KernelSpec) (key : DispatchKey) :
    Except LookupError Selected :=
  if specs = [] then .error (.unknownOp key.op registered)
  else
    let rejections := specs.filterMap fun spec =>
      (rejectReason host spec key).map fun reason => (spec.name, reason)
    let feasible := specs.filter fun spec => rejectReason host spec key = none
    let ranked := feasible.insertionSort fun a b => rankKey provider a key ≤ rankKey provider b key
    match ranked with
    | [] => .error (.noUsable key rejections)
    | chosen :: runnersUp =>
      .ok
        { spec := chosen
          key := key
          rejections := rejections
          runnersUp := runnersUp }

/-! ### The hook of a step -/

/-- The key `step_prepare_for` ranks by. -/
def hookKey (op : Label) (pin : Option Label) : DispatchKey where
  op := op
  dtype := "any".toList
  scheme := "unquantized".toList
  shape := []
  layout := ∅
  platform := host.platform
  forcedBackend := pin

/-- The three tests of the scan: the pin, the platform and the library. -/
def admitted (pin : Option Label) (spec : KernelSpec) : Bool :=
  (pin.all fun forced => spec.backend = forced) &&
    capabilitiesMatch spec.capability host.platform && libraryAvailable host spec

/-- A turn of the scan: the best row so far, with its rank. -/
def scanRow (op : Label) (pin : Option Label) (best : Option (RowRank × KernelSpec))
    (spec : KernelSpec) : Option (RowRank × KernelSpec) :=
  if !admitted host pin spec then best
  else
    let rank := rankKey provider spec (hookKey host op pin)
    if best.all fun best => decide (rank < best.1) then some (rank, spec) else best

/-- The row the scan ends at. -/
def scanRows (op : Label) (pin : Option Label) (specs : List KernelSpec) : Option KernelSpec :=
  (specs.foldl (scanRow host provider op pin) none).map Prod.snd

/-- The hook a spec declares, imported. -/
def hookOf (spec : KernelSpec) : Except Raised (Option H) :=
  match spec.stepPrepare with
  | none => .ok none
  | some ref => (host.resolveTarget ref).map some

/-- The rest of `step_prepare_for`, once there is no cached hook. -/
def scanHook (op : Label) (pin : Option Label) (specs : List KernelSpec) :
    Except Raised (Option H) :=
  match scanRows host provider op pin specs with
  | none => .ok none
  | some best => hookOf host best

end Decision

/-! ### The registry and its caches -/

/-- `OpRegistry`, the hook cache, the latency lookup in use and the environment. -/
structure Dispatcher (H : Type) where
  byName : List (Label × KernelSpec)
  byOp : List (Label × List KernelSpec)
  decisions : List (DispatchKey × Selected)
  stepPrepareCache : List (Label × Option H)
  perfProvider : PerfProvider
  environ : Environ

/-- The arguments of a `dispatch` call. -/
structure KernelCall where
  op : Label
  dtype : Label
  scheme : Label
  shape : Dims
  layout : Finset Label
  backend : Option Label

/-- `table.setdefault(op, []).append(spec)`. -/
def appendTo : List (Label × List KernelSpec) → Label → KernelSpec →
    List (Label × List KernelSpec)
  | [], op, spec => [(op, [spec])]
  | entry :: table, op, spec =>
    if op = entry.1 then (entry.1, entry.2 ++ [spec]) :: table
    else entry :: appendTo table op spec

namespace Dispatcher

variable {H : Type} (host : DispatchHost H) (s : Dispatcher H)

/-- A process before its first registration; no latency is measured. -/
def initial (environ : Environ) : Dispatcher H where
  byName := []
  byOp := []
  decisions := []
  stepPrepareCache := []
  perfProvider := fun _ _ => none
  environ := environ

/-- `OpRegistry.implementations`. -/
def implementations (op : Label) : List KernelSpec := (s.byOp.lookup op).getD []

/-- `OpRegistry.notify_change`. -/
def notifyChange (op : Label) : Dispatcher H :=
  { s with decisions := s.decisions.filter fun entry => entry.1.op ≠ op }

/-- `OpRegistry.register`. -/
def register (spec : KernelSpec) : Except Raised KernelSpec × Dispatcher H :=
  match spec.validate with
  | .error e => (.error e, s)
  | .ok () =>
    match s.byName.lookup spec.name with
    | some existing =>
      if existing = spec then (.ok existing, s)
      else (.error (.valueError (s!"kernel name {labelText spec.name} already registered with " ++
        "a different spec")), s)
    | none =>
      (.ok spec, { s with
        byName := s.byName ++ [(spec.name, spec)]
        byOp := appendTo s.byOp spec.op spec }.notifyChange spec.op)

/-- `invalidate_cache`. -/
def invalidateCache : Option Label → Dispatcher H
  | none => { s with decisions := [], stepPrepareCache := [] }
  | some op =>
    { s.notifyChange op with
      stepPrepareCache := s.stepPrepareCache.filter fun entry => entry.1 ≠ op }

/-- `set_perf_provider`. -/
def setPerfProvider (provider : PerfProvider) : Dispatcher H :=
  { s with perfProvider := provider }.invalidateCache none

/-- The key of a call. -/
def dispatchKey (call : KernelCall) : DispatchKey where
  op := call.op
  dtype := call.dtype
  scheme := call.scheme
  shape := call.shape.insertionSort fun a b => toLex a ≤ toLex b
  layout := call.layout
  platform := host.platform
  forcedBackend := forcedBackend s.environ call.op call.backend

/-- What filtering and ranking the rows registered now gives. -/
def decide (key : DispatchKey) : Except LookupError Selected :=
  decision host s.perfProvider (s.byOp.map Prod.fst) (s.implementations key.op) key

/-- `dispatch`. -/
def dispatch (call : KernelCall) : Except LookupError Selected × Dispatcher H :=
  let answer := fetch s.decisions (s.decide host) (s.dispatchKey host call)
  (answer.1, { s with decisions := answer.2 })

/-- The hook from scratch. -/
def scan (op : Label) : Except Raised (Option H) :=
  scanHook host s.perfProvider op (forcedBackend s.environ op none) (s.implementations op)

/-- `step_prepare_for`. -/
def stepPrepareFor (op : Label) : Except Raised (Option H) × Dispatcher H :=
  let answer := fetch s.stepPrepareCache (s.scan host) op
  (answer.1, { s with stepPrepareCache := answer.2 })

end Dispatcher

/-- A call, or a change of the environment between two. -/
inductive DispatcherOp
  | register (spec : KernelSpec)
  | setPerfProvider (provider : PerfProvider)
  | invalidateCache (op : Option Label)
  | dispatch (call : KernelCall)
  | stepPrepareFor (op : Label)
  | setenv (environ : Environ)

namespace Dispatcher

variable {H : Type} (host : DispatchHost H) (s : Dispatcher H)

def exec : DispatcherOp → Dispatcher H
  | .register spec => (s.register spec).2
  | .setPerfProvider provider => s.setPerfProvider provider
  | .invalidateCache op => s.invalidateCache op
  | .dispatch call => (s.dispatch host call).2
  | .stepPrepareFor op => (s.stepPrepareFor host op).2
  | .setenv environ => { s with environ := environ }

/-- A step of the process. -/
def Stepped (s : Dispatcher H) (op : DispatcherOp) (t : Dispatcher H) : Prop := t = s.exec host op

/-- A decode call of a running model: what it asks for of its operator, with no backend of its
own. -/
structure RunningCall where
  dtype : Label
  scheme : Label
  shape : Dims
  layout : Finset Label

def RunningCall.toCall (running : RunningCall) (op : Label) : KernelCall where
  op := op
  dtype := running.dtype
  scheme := running.scheme
  shape := running.shape
  layout := running.layout
  backend := none

variable (running : Label → Set RunningCall)

/-- The hook of an operator is that of the row its running calls are served by. -/
def HookBelongs (op : Label) : Prop :=
  ∀ call ∈ running op, ∀ selected, (s.dispatch host (call.toCall op)).1 = .ok selected →
    (s.stepPrepareFor host op).1 = hookOf host selected.spec

/-- The rank of a row in the scan. -/
def scanRank (op : Label) (spec : KernelSpec) : RowRank :=
  rankKey s.perfProvider spec (hookKey host op (forcedBackend s.environ op none))

/-- A row the pin, the platform and its library let through. -/
def Admitted (op : Label) (spec : KernelSpec) : Prop :=
  spec ∈ s.implementations op ∧ admitted host (forcedBackend s.environ op none) spec

/-- A row that passes every gate for a key, and is ranked behind no other that does. -/
def Leads (key : DispatchKey) (spec : KernelSpec) : Prop :=
  (spec ∈ s.implementations key.op ∧ rejectReason host spec key = none) ∧
  ∀ other ∈ s.implementations key.op, rejectReason host other key = none →
    rankKey s.perfProvider spec key ≤ rankKey s.perfProvider other key

/-- Ranked without dtype, scheme, dims and tags, and with only the pin, the platform and the
libraries to exclude them, the rows with another hook than the row that leads for a running call
are behind some row with its hook. -/
def Aligned (op : Label) : Prop :=
  ∀ call ∈ running op, ∀ leader, s.Leads host (s.dispatchKey host (call.toCall op)) leader →
    ∀ other, s.Admitted host op other → hookOf host other ≠ hookOf host leader →
      ∃ row, s.Admitted host op row ∧ hookOf host row = hookOf host leader ∧
        s.scanRank host op row < s.scanRank host op other

/-- No row is registered for an operator and no pin of it changes while its hook is cached, and
when the hook is computed, the rows are aligned. -/
def Meets : DispatcherOp → Prop
  | .register spec =>
      s.stepPrepareCache.lookup spec.op = none ∨ (s.register spec).2.byName = s.byName
  | .stepPrepareFor op => s.stepPrepareCache.lookup op = none → s.Aligned host running op
  | .setenv environ => ∀ op hook, s.stepPrepareCache.lookup op = some hook →
      forcedBackend environ op none = forcedBackend s.environ op none
  | _ => True

end Dispatcher

/-! ### What filtering and ranking pick -/

section Picks

variable {H : Type} {host : DispatchHost H} {provider : PerfProvider} {specs : List KernelSpec}
  {key : DispatchKey}

/-- A decision does not depend on what an error would list. -/
theorem decision_registered {registered : List Label} {selected : Selected}
    (h : decision host provider registered specs key = .ok selected) (registered' : List Label) :
    decision host provider registered' specs key = .ok selected := by
  unfold decision at h ⊢
  split at h
  · cases h
  · next hne => rw [if_neg hne]; exact h

/-- **The decision is a row that passes every gate, and none that does is ranked before it.** -/
theorem decision_ok {registered : List Label} {selected : Selected}
    (h : decision host provider registered specs key = .ok selected) :
    (selected.spec ∈ specs ∧ rejectReason host selected.spec key = none) ∧
    ∀ other ∈ specs, rejectReason host other key = none →
      rankKey provider selected.spec key ≤ rankKey provider other key := by
  unfold decision at h
  split at h
  · cases h
  set feasible := specs.filter fun spec => rejectReason host spec key = none
  have hfeasible : ∀ spec, spec ∈ feasible ↔ spec ∈ specs ∧ rejectReason host spec key = none := by
    intro spec
    rw [List.mem_filter, decide_eq_true_iff]
  have hperm := List.perm_insertionSort (fun a b => rankKey provider a key ≤ rankKey provider b key)
    feasible
  have hsorted : (feasible.insertionSort fun a b =>
      rankKey provider a key ≤ rankKey provider b key).Pairwise
        fun a b => rankKey provider a key ≤ rankKey provider b key := by
    have : Std.Total fun a b => rankKey provider a key ≤ rankKey provider b key :=
      ⟨fun _ _ => le_total _ _⟩
    have : IsTrans KernelSpec fun a b => rankKey provider a key ≤ rankKey provider b key :=
      ⟨fun _ _ _ => le_trans⟩
    exact List.pairwise_insertionSort _ _
  dsimp only at h
  split at h
  · cases h
  · next chosen runnersUp hranked =>
    cases h
    rw [hranked] at hperm hsorted
    refine ⟨(hfeasible _).mp (hperm.mem_iff.mp List.mem_cons_self), fun other hmem hother => ?_⟩
    rcases List.mem_cons.mp (hperm.mem_iff.mpr ((hfeasible other).mpr ⟨hmem, hother⟩)) with
      rfl | hrest
    · exact le_refl _
    · exact (List.pairwise_cons.mp hsorted).1 other hrest

/-- A row that passes every gate for its key makes for a decision. -/
theorem decision_exists (registered : List Label) {spec : KernelSpec} (hmem : spec ∈ specs)
    (hspec : rejectReason host spec key = none) :
    ∃ selected, decision host provider registered specs key = .ok selected := by
  unfold decision
  rw [if_neg (List.ne_nil_of_mem hmem)]
  dsimp only
  split
  · next hnil =>
    have hperm := List.perm_insertionSort
      (fun a b => rankKey provider a key ≤ rankKey provider b key)
      (specs.filter fun spec => rejectReason host spec key = none)
    rw [hnil] at hperm
    have hin : spec ∈ specs.filter fun spec => rejectReason host spec key = none :=
      List.mem_filter.mpr ⟨hmem, decide_eq_true hspec⟩
    rw [← hperm.nil_eq] at hin
    cases hin
  · exact ⟨_, rfl⟩

variable (host provider specs) in
/-- **The scan ends at a row its tests let through, and none they do is ranked before it.** -/
theorem foldl_scanRow (op : Label) (pin : Option Label) :
    match specs.foldl (scanRow host provider op pin) none with
    | none => ∀ spec ∈ specs, ¬ admitted host pin spec
    | some best =>
      (best.2 ∈ specs ∧ admitted host pin best.2 ∧
        best.1 = rankKey provider best.2 (hookKey host op pin)) ∧
      ∀ spec ∈ specs, admitted host pin spec →
        best.1 ≤ rankKey provider spec (hookKey host op pin) := by
  induction specs using List.reverseRecOn with
  | nil => exact nofun
  | append_singleton specs spec ih =>
    rw [List.foldl_append, List.foldl_cons, List.foldl_nil]
    generalize specs.foldl (scanRow host provider op pin) none = best at ih
    have hall : ∀ {P : KernelSpec → Prop}, (∀ row ∈ specs, P row) → P spec →
        ∀ row ∈ specs ++ [spec], P row := by
      intro P hspecs hspec row hrow
      rcases List.mem_append.mp hrow with hrow | hrow
      · exact hspecs row hrow
      · exact List.mem_singleton.mp hrow ▸ hspec
    unfold scanRow
    by_cases hadmitted : admitted host pin spec
    · rw [if_neg (by simpa using hadmitted)]
      cases best with
      | none =>
        refine ⟨⟨List.mem_append_right _ (List.mem_singleton_self _), hadmitted, rfl⟩, ?_⟩
        exact hall (fun row hrow h => absurd h (ih row hrow)) fun _ => le_refl _
      | some best =>
        obtain ⟨⟨hmem, hbest, hrank⟩, hleast⟩ := ih
        by_cases hlt : rankKey provider spec (hookKey host op pin) < best.1
        · dsimp only
          rw [if_pos (by simpa using hlt)]
          refine ⟨⟨List.mem_append_right _ (List.mem_singleton_self _), hadmitted, rfl⟩, ?_⟩
          exact hall (fun row hrow h => hlt.le.trans (hleast row hrow h)) fun _ => le_refl _
        · dsimp only
          rw [if_neg (by simpa using hlt)]
          exact ⟨⟨List.mem_append_left _ hmem, hbest, hrank⟩,
            hall hleast fun _ => not_lt.mp hlt⟩
    · rw [if_pos (by simpa using hadmitted)]
      cases best with
      | none => exact hall ih hadmitted
      | some best =>
        obtain ⟨⟨hmem, hbest⟩, hleast⟩ := ih
        exact ⟨⟨List.mem_append_left _ hmem, hbest⟩, hall hleast fun h => absurd h hadmitted⟩

/-- A row that passes every gate of a key passes the tests of a scan under its pin. -/
theorem admitted_of_feasible {spec : KernelSpec} (hplatform : key.platform = host.platform)
    (h : rejectReason host spec key = none) : admitted host key.forcedBackend spec := by
  unfold rejectReason at h
  split at h
  · cases h
  next hpin =>
  split at h
  · cases h
  next hlibrary =>
  dsimp only at h
  split at h
  · cases h
  next hcapability =>
  have hpinned : key.forcedBackend.all fun forced => spec.backend = forced := by
    cases hforced : key.forcedBackend with
    | none => rfl
    | some forced =>
      rw [hforced] at hpin
      simpa [Option.filter] using hpin
  have havailable : libraryAvailable host spec := by
    unfold libraryAvailable
    cases hcheck : spec.available with
    | none => rfl
    | some ref =>
      rw [hcheck] at hlibrary
      simpa [Option.filter] using hlibrary
  rw [admitted, hpinned, havailable, ← hplatform]
  simpa using hcapability

end Picks

namespace Dispatcher

variable {H : Type} {host : DispatchHost H} {s t : Dispatcher H} {op : Label}
  {running : Label → Set RunningCall}

/-! ### The hook and the leader -/

/-- No two rows of an operator have one name, and the rows are the named ones. -/
structure Named (s : Dispatcher H) : Prop where
  known : ∀ op, ∀ spec ∈ s.implementations op, s.byName.lookup spec.name ≠ none
  distinct : ∀ op, ((s.implementations op).map KernelSpec.name).Nodup

theorem leads_of_decide {key : DispatchKey} {selected : Selected}
    (h : s.decide host key = .ok selected) : s.Leads host key selected.spec :=
  decision_ok h

/-- A row that leads for a running call is one the scan admits. -/
theorem Leads.admitted {call : RunningCall} {leader : KernelSpec}
    (h : s.Leads host (s.dispatchKey host (call.toCall op)) leader) : s.Admitted host op leader :=
  ⟨h.1.1, admitted_of_feasible rfl h.1.2⟩

/-- **The scan takes its hook from the first of the rows it admits.** -/
theorem scan_eq {row : KernelSpec} (hrow : s.Admitted host op row) :
    ∃ best, s.Admitted host op best ∧ s.scan host op = hookOf host best ∧
      ∀ other, s.Admitted host op other → s.scanRank host op best ≤ s.scanRank host op other := by
  have hends := foldl_scanRow host s.perfProvider (s.implementations op) op
    (forcedBackend s.environ op none)
  unfold scan scanHook scanRows
  split at hends
  · exact absurd hrow.2 (hends row hrow.1)
  · next best hbest =>
    rw [hbest]
    refine ⟨best.2, ⟨hends.1.1, hends.1.2.1⟩, rfl, fun other hother => ?_⟩
    rw [scanRank, ← hends.1.2.2]
    exact hends.2 other hother.1 hother.2

theorem eq_of_rank (hnamed : s.Named) {key : DispatchKey} {a b : KernelSpec}
    (ha : a ∈ s.implementations op) (hb : b ∈ s.implementations op)
    (hrank : rankKey s.perfProvider a key = rankKey s.perfProvider b key) : a = b :=
  List.inj_on_of_nodup_map (hnamed.distinct op) ha hb
    (congrArg (fun rank : RowRank => (ofLex (ofLex (ofLex rank).2).2).2) hrank)

/-- **Aligned rows are those whose scan ends at the hook of the leader.** -/
theorem aligned_iff (hnamed : s.Named) : s.Aligned host running op ↔
    ∀ call ∈ running op, ∀ leader, s.Leads host (s.dispatchKey host (call.toCall op)) leader →
      s.scan host op = hookOf host leader := by
  constructor
  · intro haligned call hcall leader hleads
    obtain ⟨best, hbest, hscan, hleast⟩ := scan_eq hleads.admitted
    rw [hscan]
    by_contra hne
    obtain ⟨row, hrow, -, hlt⟩ := haligned call hcall leader hleads best hbest hne
    exact absurd (hleast row hrow) (not_le.mpr hlt)
  · intro hhook call hcall leader hleads other hother hne
    obtain ⟨best, hbest, hscan, hleast⟩ := scan_eq hleads.admitted
    have hsame : hookOf host best = hookOf host leader :=
      hscan.symm.trans (hhook call hcall leader hleads)
    refine ⟨best, hbest, hsame, lt_of_le_of_ne (hleast other hother) fun heq => hne ?_⟩
    rw [← eq_of_rank hnamed hbest.1 hother.1 heq, hsame]

/-! ### What a step changes -/

theorem lookup_appendTo (table : List (Label × List KernelSpec)) (op : Label) (spec : KernelSpec)
    (op' : Label) : (appendTo table op spec).lookup op' =
      if op' = op then some ((table.lookup op).getD [] ++ [spec]) else table.lookup op' := by
  induction table with
  | nil =>
    rw [appendTo, List.lookup_cons]
    by_cases h : op' = op
    · rw [if_pos h, beq_iff_eq.mpr h]
      rfl
    · rw [if_neg h, beq_eq_false_iff_ne.mpr h]
  | cons entry table ih =>
    rw [appendTo]
    by_cases hentry : op = entry.1
    · subst hentry
      rw [if_pos rfl, List.lookup_cons, List.lookup_cons, List.lookup_cons, beq_self_eq_true]
      by_cases h : op' = entry.1
      · rw [if_pos h, beq_iff_eq.mpr h]
        rfl
      · rw [if_neg h, beq_eq_false_iff_ne.mpr h]
    · rw [if_neg hentry, List.lookup_cons, List.lookup_cons, List.lookup_cons, ih,
        beq_eq_false_iff_ne.mpr hentry]
      by_cases h : op' = entry.1
      · have hne : op' ≠ op := fun heq => hentry (heq ▸ h)
        rw [beq_iff_eq.mpr h]
        exact (if_neg hne).symm
      · rw [beq_eq_false_iff_ne.mpr h]

/-- A registration that adds its row. -/
def added (s : Dispatcher H) (spec : KernelSpec) : Dispatcher H :=
  { s with
    byName := s.byName ++ [(spec.name, spec)]
    byOp := appendTo s.byOp spec.op spec }.notifyChange spec.op

theorem implementations_added (s : Dispatcher H) (spec : KernelSpec) (op : Label) :
    (s.added spec).implementations op =
      if op = spec.op then s.implementations op ++ [spec] else s.implementations op := by
  unfold implementations added notifyChange
  dsimp only
  rw [lookup_appendTo]
  split
  · next h => rw [h]; rfl
  · rfl

/-- A registration changes nothing, or adds a row under a new name. -/
theorem register_cases (s : Dispatcher H) (spec : KernelSpec) :
    (s.register spec).2 = s ∨
      s.byName.lookup spec.name = none ∧ (s.register spec).2 = s.added spec := by
  unfold register
  split
  · exact .inl rfl
  split
  · split <;> exact .inl rfl
  · next hnone => exact .inr ⟨hnone, rfl⟩

/-- Everything the hook of an operator depends on is the same. -/
structure SameRows (s t : Dispatcher H) (op : Label) : Prop where
  rows : t.implementations op = s.implementations op
  provider : t.perfProvider = s.perfProvider
  pin : forcedBackend t.environ op none = forcedBackend s.environ op none

theorem SameRows.scan (h : SameRows s t op) : t.scan host op = s.scan host op := by
  rw [Dispatcher.scan, Dispatcher.scan, h.rows, h.provider, h.pin]

theorem SameRows.aligned (h : SameRows s t op) (ha : s.Aligned host running op) :
    t.Aligned host running op := by
  have hkey : ∀ call : RunningCall,
      t.dispatchKey host (call.toCall op) = s.dispatchKey host (call.toCall op) := by
    intro call
    unfold dispatchKey RunningCall.toCall
    dsimp only
    rw [h.pin]
  have hop : ∀ call : RunningCall, (s.dispatchKey host (call.toCall op)).op = op := fun _ => rfl
  unfold Aligned Leads Admitted scanRank at ha ⊢
  simp only [hkey, hop, h.rows, h.provider, h.pin] at ha ⊢
  exact ha

/-- The decisions remembered are those from scratch. -/
structure Coherent (host : DispatchHost H) (s : Dispatcher H) : Prop where
  named : s.Named
  decisions : Memo s.decisions (s.decide host)

/-- The hooks remembered are those from scratch, and belong to the leaders. -/
structure HooksFresh (host : DispatchHost H) (running : Label → Set RunningCall)
    (s : Dispatcher H) : Prop where
  hooks : Memo s.stepPrepareCache (s.scan host)
  aligned : ∀ op hook, s.stepPrepareCache.lookup op = some hook → s.Aligned host running op

theorem Named.of_rows (h : s.Named) (hrows : t.byOp = s.byOp) (hnames : t.byName = s.byName) :
    t.Named := by
  have himpl : ∀ op, t.implementations op = s.implementations op := fun op => by
    rw [implementations, implementations, hrows]
  exact ⟨fun op spec hspec => hnames ▸ h.known op spec (himpl op ▸ hspec),
    fun op => himpl op ▸ h.distinct op⟩

theorem Named.added (h : s.Named) {spec : KernelSpec} (hnew : s.byName.lookup spec.name = none) :
    (s.added spec).Named := by
  constructor
  · intro op row hrow
    have hname : (s.added spec).byName.lookup row.name =
        (s.byName.lookup row.name).or ([(spec.name, spec)].lookup row.name) :=
      List.lookup_append
    rw [hname]
    rw [implementations_added] at hrow
    have hold : row ∈ s.implementations op → (s.byName.lookup row.name).or
        ([(spec.name, spec)].lookup row.name) ≠ none := by
      intro hrow hnone
      exact h.known op row hrow (Option.or_eq_none_iff.mp hnone).1
    split at hrow
    · rcases List.mem_append.mp hrow with hrow | hrow
      · exact hold hrow
      · rw [List.mem_singleton.mp hrow, hnew, List.lookup_cons, beq_self_eq_true]
        exact Option.some_ne_none _
    · exact hold hrow
  · intro op
    rw [implementations_added]
    split
    · rw [List.map_append, List.map_singleton]
      refine List.Nodup.append (h.distinct op) (List.nodup_singleton _) ?_
      intro name hname hspec
      obtain ⟨row, hrow, rfl⟩ := List.mem_map.mp hname
      have hsame : row.name = spec.name := List.mem_singleton.mp hspec
      exact h.known op row hrow (by rw [hsame, hnew])
    · exact h.distinct op

/-! ### The caches over a run -/

theorem initial_coherent (environ : Environ) : (initial environ : Dispatcher H).Coherent host where
  named := ⟨fun _ _ hspec => absurd hspec List.not_mem_nil, fun _ => List.nodup_nil⟩
  decisions := Memo.nil _

theorem initial_hooksFresh (environ : Environ) :
    (initial environ : Dispatcher H).HooksFresh host running where
  hooks := Memo.nil _
  aligned := nofun

/-- A decision for another operator does not see a new row. -/
theorem decide_added {spec : KernelSpec} {key : DispatchKey} {selected : Selected}
    (hop : key.op ≠ spec.op) (h : s.decide host key = .ok selected) :
    (s.added spec).decide host key = .ok selected := by
  unfold decide at h ⊢
  rw [implementations_added, if_neg hop]
  exact decision_registered h _

/-- **The decisions stay coherent**, whatever is called. -/
theorem Coherent.exec (h : s.Coherent host) (op : DispatcherOp) : (s.exec host op).Coherent host := by
  cases op with
  | register spec =>
    rcases register_cases s spec with heq | ⟨hnew, heq⟩ <;> rw [Dispatcher.exec, heq]
    · exact h
    · refine ⟨h.named.added hnew, ?_⟩
      exact h.decisions.filter fun key _ hkey hdecide =>
        decide_added (of_decide_eq_true hkey) hdecide
  | setPerfProvider provider => exact ⟨h.named.of_rows rfl rfl, Memo.nil _⟩
  | invalidateCache op =>
    cases op with
    | none => exact ⟨h.named.of_rows rfl rfl, Memo.nil _⟩
    | some op =>
      refine ⟨h.named.of_rows rfl rfl, ?_⟩
      exact h.decisions.filter (p := fun key => key.op ≠ op) fun _ _ _ hdecide => hdecide
  | dispatch call => exact ⟨h.named.of_rows rfl rfl, h.decisions.fetch_snd _⟩
  | stepPrepareFor op => exact ⟨h.named.of_rows rfl rfl, h.decisions⟩
  | setenv environ => exact ⟨h.named.of_rows rfl rfl, h.decisions⟩

/-- Hooks outlive a step that changes nothing for the operators they are cached for. -/
theorem HooksFresh.of_sameRows (h : s.HooksFresh host running)
    (hcache : t.stepPrepareCache = s.stepPrepareCache)
    (hsame : ∀ op hook, s.stepPrepareCache.lookup op = some hook → SameRows s t op) :
    t.HooksFresh host running := by
  refine ⟨?_, fun op hook hlookup => ?_⟩
  · rw [hcache]
    exact h.hooks.congr fun op hook hlookup hscan => (hsame op hook hlookup).scan.trans hscan
  · rw [hcache] at hlookup
    exact (hsame op hook hlookup).aligned (h.aligned op hook hlookup)

/-- **The hooks stay those of the leaders** through a step that meets the condition. -/
theorem HooksFresh.exec (h : s.HooksFresh host running) {op : DispatcherOp}
    (hmeets : s.Meets host running op) : (s.exec host op).HooksFresh host running := by
  cases op with
  | register spec =>
    rcases register_cases s spec with heq | ⟨-, heq⟩ <;> rw [Dispatcher.exec, heq]
    · exact h
    · refine h.of_sameRows rfl fun op hook hlookup => ⟨?_, rfl, rfl⟩
      rw [implementations_added, if_neg]
      rintro rfl
      rcases hmeets with hnone | hsame
      · rw [hnone] at hlookup
        cases hlookup
      · rw [heq] at hsame
        exact absurd (congrArg List.length hsame) (by simp [added, notifyChange])
  | setPerfProvider provider => exact ⟨Memo.nil _, nofun⟩
  | invalidateCache op =>
    cases op with
    | none => exact ⟨Memo.nil _, nofun⟩
    | some op =>
      refine ⟨h.hooks.filter (p := (· ≠ op)) fun _ _ _ hscan => hscan,
        fun op' hook hlookup => ?_⟩
      have hkept := (lookup_filter s.stepPrepareCache (fun key => Decidable.decide (key ≠ op))
        op').symm.trans hlookup
      split at hkept
      · exact SameRows.aligned ⟨rfl, rfl, rfl⟩ (h.aligned op' hook hkept)
      · cases hkept
  | dispatch call => exact h.of_sameRows rfl fun _ _ _ => ⟨rfl, rfl, rfl⟩
  | stepPrepareFor op =>
    refine ⟨h.hooks.fetch_snd op, fun op' hook hlookup => ?_⟩
    refine SameRows.aligned (s := s) ⟨rfl, rfl, rfl⟩ ?_
    by_cases hop : op' = op
    · subst hop
      cases hcached : s.stepPrepareCache.lookup op' with
      | some hook => exact h.aligned op' hook hcached
      | none => exact hmeets hcached
    · exact h.aligned op' hook ((lookup_fetch hop).symm.trans hlookup)
  | setenv environ =>
    exact h.of_sameRows rfl fun op hook hlookup => ⟨rfl, rfl, hmeets op hook hlookup⟩

theorem coherent_of_run {environ : Environ} {ops : List DispatcherOp}
    (h : Run (Stepped host) (initial environ) ops s) : s.Coherent host := by
  refine h.invariant (I := Coherent host) (fun _ op _ hs hstep => ?_) (initial_coherent environ)
  cases hstep
  exact hs.exec op

theorem hooksFresh_of_run {environ : Environ} {ops : List DispatcherOp}
    (h : Run (Guarded (Stepped host) fun s op => s.Meets host running op) (initial environ) ops s) :
    s.HooksFresh host running := by
  refine h.invariant (I := HooksFresh host running) (fun _ _ _ hs hstep => ?_)
    (initial_hooksFresh environ)
  obtain ⟨rfl, hmeets⟩ := hstep
  exact hs.exec hmeets

/-- A call answers with the decision from scratch. -/
theorem Coherent.dispatch_fst (h : s.Coherent host) (call : KernelCall) :
    (s.dispatch host call).1 = s.decide host (s.dispatchKey host call) :=
  h.decisions.fetch_fst _

/-- For a hook that is computed now, belonging to the leader is being aligned. -/
theorem hookBelongs_iff (h : s.Coherent host) (hook : (s.stepPrepareFor host op).1 = s.scan host op) :
    s.HookBelongs host running op ↔ s.Aligned host running op := by
  rw [aligned_iff h.named]
  constructor
  · intro hbelongs call hcall leader hleads
    have hexists : ∃ selected, s.decide host (s.dispatchKey host (call.toCall op)) = .ok selected :=
      decision_exists (s.byOp.map Prod.fst) hleads.1.1 hleads.1.2
    obtain ⟨selected, hselected⟩ := hexists
    have hother := leads_of_decide hselected
    have hsame : selected.spec = leader :=
      eq_of_rank h.named hother.1.1 hleads.1.1
        (le_antisymm (hother.2 _ hleads.1.1 hleads.1.2) (hleads.2 _ hother.1.1 hother.1.2))
    rw [← hook, hbelongs call hcall selected ((h.dispatch_fst _).trans hselected), hsame]
  · intro hleaders call hcall selected hselected
    rw [hook]
    exact hleaders call hcall selected.spec (leads_of_decide ((h.dispatch_fst _).symm.trans hselected))

/-- **Dispatch and its caches.** In every run a dispatch answers with the decision from scratch.
In a run in which no row is registered and no pin changes for an operator whose hook is cached,
and whose hooks are computed where the rows are aligned, each hook is that of the row its running
calls are served by. A hook that is computed where the rows are not is another's. -/
theorem dispatch_coherent (host : DispatchHost H) (running : Label → Set RunningCall)
    (environ : Environ) :
    (∀ ops s, Run (Stepped host) (initial environ) ops s → ∀ call : KernelCall,
      (s.dispatch host call).1 = s.decide host (s.dispatchKey host call)) ∧
    (∀ ops s, Run (Guarded (Stepped host) fun s op => s.Meets host running op)
        (initial environ) ops s → ∀ op, s.Meets host running (.stepPrepareFor op) →
      s.HookBelongs host running op) ∧
    ∀ ops s, Run (Stepped host) (initial environ) ops s → ∀ op,
      s.stepPrepareCache.lookup op = none →
        (s.HookBelongs host running op ↔ s.Meets host running (.stepPrepareFor op)) := by
  refine ⟨fun ops s hrun => (coherent_of_run hrun).dispatch_fst, fun ops s hrun op hmeets => ?_,
    fun ops s hrun op hnone => ?_⟩
  · have hfresh := hooksFresh_of_run hrun
    rw [hookBelongs_iff (coherent_of_run hrun.of_guarded) (hfresh.hooks.fetch_fst op)]
    cases hcached : s.stepPrepareCache.lookup op with
    | some hook => exact hfresh.aligned op hook hcached
    | none => exact hmeets hcached
  · have hcomputed : (s.stepPrepareFor host op).1 = s.scan host op := by
      unfold stepPrepareFor fetch
      rw [hnone]
      cases s.scan host op <;> rfl
    rw [hookBelongs_iff (coherent_of_run hrun) hcomputed]
    exact ⟨fun h _ => h, fun h => h hnone⟩

/-! ### A hook that outlives a registration -/

def decodeOp : Label := "attention.decode".toList

/-- A host on which every library is there, with the name of a hook for the hook. -/
def plainHost : DispatchHost Label where
  platform := ⟨"cuda".toList, some 8, some 6, "NVIDIA A10".toList⟩
  checkAvailable := fun _ => (true, "")
  resolveTarget := .ok

def floorSpec : KernelSpec where
  name := "native/floor".toList
  op := decodeOp
  backend := "native".toList
  target := "math:sin".toList
  golden := { verified := true }

/-- A row that is ranked before the floor, and plans each step. -/
def plannedSpec : KernelSpec where
  name := "ext/decode".toList
  op := decodeOp
  backend := "ext".toList
  target := "math:cos".toList
  available := some "ext:available".toList
  golden := { verified := true }
  priority := 10
  stepPrepare := some "ext:plan".toList

def bf16Decode : RunningCall where
  dtype := "bf16".toList
  scheme := "unquantized".toList
  shape := []
  layout := ∅

/-- The floor is registered, a step asks for its hook, then the planned row is registered. The
decode goes to the planned row, and the step runs without its hook. -/
def staleHook : Dispatcher Label :=
  [.register floorSpec, .stepPrepareFor decodeOp, .register plannedSpec].foldl
    (fun s op => s.exec plainHost op) (initial fun _ => none)

theorem staleHook_run :
    Run (Stepped plainHost) (initial fun _ => none)
      [.register floorSpec, .stepPrepareFor decodeOp, .register plannedSpec] staleHook ∧
    ((staleHook.dispatch plainHost (bf16Decode.toCall decodeOp)).1.toOption.map Selected.spec) =
      some plannedSpec ∧
    (staleHook.stepPrepareFor plainHost decodeOp).1 = .ok none ∧
    hookOf plainHost plannedSpec = .ok (some "ext:plan".toList) ∧
    ¬ staleHook.HookBelongs plainHost (fun _ => {bf16Decode}) decodeOp := by
  have hrun : Run (Stepped plainHost) (initial fun _ => none)
      ([] ++ [.register floorSpec] ++ [.stepPrepareFor decodeOp] ++ [.register plannedSpec])
      staleHook := ((Run.nil.snoc rfl).snoc rfl).snoc rfl
  have hserved : (staleHook.dispatch plainHost (bf16Decode.toCall decodeOp)).1.toOption.map
      Selected.spec = some plannedSpec := by decide +kernel
  have hcached : (staleHook.stepPrepareFor plainHost decodeOp).1 = .ok none := by rfl
  refine ⟨hrun, hserved, hcached, rfl, fun hbelongs => ?_⟩
  cases hanswer : (staleHook.dispatch plainHost (bf16Decode.toCall decodeOp)).1 with
  | error e =>
      rw [hanswer] at hserved
      cases hserved
  | ok selected =>
      rw [hanswer] at hserved
      have hspec : selected.spec = plannedSpec := Option.some.inj hserved
      have hhook := hbelongs bf16Decode rfl selected hanswer
      rw [hcached, hspec] at hhook
      cases hhook

end Dispatcher

end RapidLlm
