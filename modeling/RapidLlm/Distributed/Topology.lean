import Mathlib.Tactic.Ring
import RapidLlm.Lib.Grouping
import RapidLlm.Engine.BlockPool

/-!
# RapidLlm.Distributed.Topology

**The rank grid** (`distributed/topology.py`, and the process groups that `init_parallel` of
`distributed/parallel_state.py` builds over it).

The world is a grid of replicas. The ranks of a replica are factored into a prefill context
axis and an attention axis, and a decode context group is a run of an attention group. Every
axis is a `Grouping` of the ranks: the properties of `ParallelTopology` are its coordinates,
and the loops that enumerate its groups are those groups in the order of their index.
`create_partitions` puts this together for a grid the constructor accepts.
-/

namespace RapidLlm

/-- `PCP_STRATEGIES`. -/
inductive PcpStrategy
  | zigzag
  | interleave
  deriving DecidableEq, Repr

/-- `DCP_COMM_BACKENDS`. -/
inductive DcpCommBackend
  | agRs
  | a2a
  deriving DecidableEq, Repr

def PcpStrategy.ofName (name : String) : Option PcpStrategy :=
  if name = "zigzag" then some .zigzag
  else if name = "interleave" then some .interleave
  else none

def DcpCommBackend.ofName (name : String) : Option DcpCommBackend :=
  if name = "ag_rs" then some .agRs
  else if name = "a2a" then some .a2a
  else none

/-- Validated parallel widths and a rank's coordinates. -/
structure ParallelTopology where
  globalRank : Nat
  tpSize : Nat
  dpSize : Nat
  pcpSize : Nat
  dcpSize : Nat
  pcpStrategy : PcpStrategy
  dcpCommBackend : DcpCommBackend
  globalRank_lt : globalRank < tpSize * dpSize
  pcpSize_dvd : pcpSize ∣ tpSize
  dcpSize_dvd : dcpSize ∣ tpSize / pcpSize

/-- The sizes `__post_init__` looks at, under the names it reports. -/
def namedSizes (tpSize dpSize pcpSize dcpSize : Int) : List (String × Int) :=
  [("tp_size", tpSize), ("dp_size", dpSize), ("prefill_context_parallel_size", pcpSize),
    ("decode_context_parallel_size", dcpSize)]

section

variable {rank tpSize dpSize pcpSize dcpSize : Int}

theorem pos_of_find?_eq_none
    (h : (namedSizes tpSize dpSize pcpSize dcpSize).find? (fun size => size.2 < 1) = none) :
    1 ≤ tpSize ∧ 1 ≤ dpSize ∧ 1 ≤ pcpSize ∧ 1 ≤ dcpSize := by
  simpa [namedSizes] using h

theorem toNat_lt_mul (htp : 1 ≤ tpSize) (hdp : 1 ≤ dpSize)
    (hrank : 0 ≤ rank ∧ rank < tpSize * dpSize) : rank.toNat < tpSize.toNat * dpSize.toNat := by
  obtain ⟨rank, rfl⟩ := Int.eq_ofNat_of_zero_le hrank.1
  obtain ⟨tpSize, rfl⟩ := Int.eq_ofNat_of_zero_le (show 0 ≤ tpSize by omega)
  obtain ⟨dpSize, rfl⟩ := Int.eq_ofNat_of_zero_le (show 0 ≤ dpSize by omega)
  exact Int.ofNat_lt.mp (by push_cast; exact hrank.2)

end

namespace ParallelTopology

/-- `__post_init__`, on the values the dataclass is given. -/
def create (globalRank tpSize dpSize pcpSize dcpSize : Int) (pcpStrategy dcpCommBackend : String) :
    Except Raised ParallelTopology :=
  match hsizes : (namedSizes tpSize dpSize pcpSize dcpSize).find? (fun size => size.2 < 1) with
  | some size => .error (.valueError s!"{size.1} must be >= 1, got {size.2}")
  | none =>
  if hrank : ¬ (0 ≤ globalRank ∧ globalRank < tpSize * dpSize) then
    .error (.valueError (s!"global_rank {globalRank} is outside a {dpSize}x{tpSize} " ++
      s!"grid of {tpSize * dpSize} ranks"))
  else if hpcp : tpSize.toNat % pcpSize.toNat ≠ 0 then
    .error (.valueError (s!"tensor_parallel_size={tpSize} must be divisible by " ++
      s!"prefill_context_parallel_size={pcpSize}"))
  else if hdcp : tpSize.toNat / pcpSize.toNat % dcpSize.toNat ≠ 0 then
    .error (.valueError (s!"attention tensor-parallel size {tpSize.toNat / pcpSize.toNat} " ++
      s!"must be divisible by decode_context_parallel_size={dcpSize}"))
  else
    match PcpStrategy.ofName pcpStrategy with
    | none => .error (.valueError (s!"unknown prefill context-parallel strategy " ++
        s!"'{pcpStrategy}'; choose from interleave, zigzag"))
    | some pcpStrategy =>
      if dcpCommBackend = "fi_a2a" then
        .error (.valueError ("dcp_comm_backend='fi_a2a' requires FlashInfer MNNVL support, " ++
          "which rapid_llm does not provide; use 'ag_rs' or 'a2a'"))
      else
        match DcpCommBackend.ofName dcpCommBackend with
        | none => .error (.valueError (s!"unknown DCP communication backend " ++
            s!"'{dcpCommBackend}'; choose from a2a, ag_rs"))
        | some dcpCommBackend => .ok {
            globalRank := globalRank.toNat
            tpSize := tpSize.toNat
            dpSize := dpSize.toNat
            pcpSize := pcpSize.toNat
            dcpSize := dcpSize.toNat
            pcpStrategy
            dcpCommBackend
            globalRank_lt := toNat_lt_mul (pos_of_find?_eq_none hsizes).1
              (pos_of_find?_eq_none hsizes).2.1 (not_not.mp hrank)
            pcpSize_dvd := Nat.dvd_of_mod_eq_zero (not_not.mp hpcp)
            dcpSize_dvd := Nat.dvd_of_mod_eq_zero (not_not.mp hdcp) }

variable (topology : ParallelTopology)

def worldSize : Nat := topology.tpSize * topology.dpSize

def dpRank : Nat := topology.globalRank / topology.tpSize

def tpRank : Nat := topology.globalRank % topology.tpSize

def attentionTpSize : Nat := topology.tpSize / topology.pcpSize

def pcpRank : Nat := topology.tpRank / topology.attentionTpSize

def attentionTpRank : Nat := topology.tpRank % topology.attentionTpSize

def dcpRank : Nat := topology.attentionTpRank % topology.dcpSize

def replicaMembers (dpRank : Option Nat) : List Nat :=
  List.range' (dpRank.getD topology.dpRank * topology.tpSize) topology.tpSize

def attentionTpGroups : List (List Nat) :=
  (List.range topology.dpSize).flatMap fun replica =>
    (List.range topology.pcpSize).map fun pcpRank =>
      List.range' (replica * topology.tpSize + pcpRank * topology.attentionTpSize)
        topology.attentionTpSize

def pcpGroups : List (List Nat) :=
  (List.range topology.dpSize).flatMap fun replica =>
    (List.range topology.attentionTpSize).map fun attentionRank =>
      (List.range topology.pcpSize).map fun pcpRank =>
        replica * topology.tpSize + pcpRank * topology.attentionTpSize + attentionRank

/-- `range(start, stop, step)`. -/
def strided (start stop step : Nat) : List Nat :=
  (List.range ((stop - start + step - 1) / step)).map fun i => start + i * step

def dcpGroups : List (List Nat) :=
  topology.attentionTpGroups.flatMap fun attentionGroup =>
    (strided 0 attentionGroup.length topology.dcpSize).map fun start =>
      (attentionGroup.drop start).take topology.dcpSize

/-! ### The coordinates are groupings -/

variable {topology : ParallelTopology}

theorem tpSize_pos : 0 < topology.tpSize :=
  Nat.pos_of_mul_pos_right (Nat.zero_lt_of_lt topology.globalRank_lt)

theorem pcpSize_pos : 0 < topology.pcpSize :=
  Nat.pos_of_dvd_of_pos topology.pcpSize_dvd tpSize_pos

/-- A replica is `pcpSize` attention groups. -/
theorem pcpSize_mul : topology.pcpSize * topology.attentionTpSize = topology.tpSize :=
  Nat.mul_div_cancel' topology.pcpSize_dvd

theorem attentionTpSize_pos : 0 < topology.attentionTpSize :=
  Nat.div_pos (Nat.le_of_dvd tpSize_pos topology.pcpSize_dvd) pcpSize_pos

theorem dcpSize_pos : 0 < topology.dcpSize :=
  Nat.pos_of_dvd_of_pos topology.dcpSize_dvd attentionTpSize_pos

theorem attentionTpSize_dvd : topology.attentionTpSize ∣ topology.tpSize :=
  Nat.div_dvd_of_dvd topology.pcpSize_dvd

theorem attentionTpRank_eq :
    topology.attentionTpRank = topology.globalRank % topology.attentionTpSize :=
  Nat.mod_mod_of_dvd _ attentionTpSize_dvd

theorem dcpRank_eq : topology.dcpRank = topology.globalRank % topology.dcpSize := by
  rw [dcpRank, attentionTpRank_eq]
  exact Nat.mod_mod_of_dvd _ topology.dcpSize_dvd

theorem replicas_grouping :
    Grouping ((List.range topology.dpSize).map fun replica => topology.replicaMembers (some replica))
      topology.worldSize (· / topology.tpSize) (· % topology.tpSize) := by
  rw [worldSize, Nat.mul_comm]
  exact Grouping.runs tpSize_pos

/-- The attention groups are runs, replica after replica. -/
theorem attentionTpGroups_eq : topology.attentionTpGroups =
    (List.range (topology.dpSize * topology.pcpSize)).map fun g =>
      List.range' (g * topology.attentionTpSize) topology.attentionTpSize := by
  rw [attentionTpGroups, flatMap_range topology.dpSize topology.pcpSize fun replica pcpRank =>
    List.range' (replica * topology.tpSize + pcpRank * topology.attentionTpSize)
      topology.attentionTpSize]
  refine List.map_congr_left fun g _ => ?_
  rw [← pcpSize_mul, ← Nat.mul_assoc, ← Nat.add_mul, Nat.div_add_mod']

theorem attentionTpGroups_grouping :
    Grouping topology.attentionTpGroups topology.worldSize (· / topology.attentionTpSize)
      (· % topology.attentionTpSize) := by
  have hworld : topology.worldSize =
      topology.dpSize * topology.pcpSize * topology.attentionTpSize := by
    rw [worldSize, ← pcpSize_mul]
    ring
  rw [attentionTpGroups_eq, hworld]
  exact Grouping.runs attentionTpSize_pos

/-- The runs of an attention group, a run at a time. -/
theorem dcpGroups_eq : topology.dcpGroups =
    (List.range (topology.dpSize * topology.pcpSize *
      (topology.attentionTpSize / topology.dcpSize))).map fun g =>
        List.range' (g * topology.dcpSize) topology.dcpSize := by
  obtain ⟨count, hcount⟩ := topology.dcpSize_dvd
  have hwidth : topology.attentionTpSize = topology.dcpSize * count := hcount
  have hdiv : topology.attentionTpSize / topology.dcpSize = count := by
    rw [hwidth, Nat.mul_div_cancel_left count dcpSize_pos]
  have hstarts : (topology.attentionTpSize + topology.dcpSize - 1) / topology.dcpSize = count := by
    rw [hwidth, Nat.add_sub_assoc dcpSize_pos, Nat.mul_add_div dcpSize_pos,
      Nat.div_eq_of_lt (Nat.sub_lt dcpSize_pos Nat.one_pos), Nat.add_zero]
  have hrun (a c : Nat) (hc : c < count) :
      ((List.range' (a * topology.attentionTpSize) topology.attentionTpSize).drop
        (c * topology.dcpSize)).take topology.dcpSize =
        List.range' ((a * count + c) * topology.dcpSize) topology.dcpSize := by
    have hle : c * topology.dcpSize + topology.dcpSize ≤ topology.attentionTpSize := by
      rw [hwidth, ← Nat.succ_mul, Nat.mul_comm]
      exact Nat.mul_le_mul_left _ hc
    rw [List.drop_range', List.take_range'_of_length_ge (by omega), hwidth]
    congr 1
    ring
  have hone (a : Nat) :
      ((strided 0 topology.attentionTpSize topology.dcpSize).map fun start =>
        ((List.range' (a * topology.attentionTpSize) topology.attentionTpSize).drop start).take
          topology.dcpSize) =
        (List.range count).map fun c =>
          List.range' ((a * count + c) * topology.dcpSize) topology.dcpSize := by
    rw [strided, Nat.sub_zero, hstarts, List.map_map]
    refine List.map_congr_left fun c hc => ?_
    rw [Function.comp_apply, Nat.zero_add, hrun a c (List.mem_range.mp hc)]
  rw [dcpGroups, attentionTpGroups_eq, List.flatMap_map, hdiv]
  simp only [List.length_range', hone]
  rw [flatMap_range _ count fun a c =>
    List.range' ((a * count + c) * topology.dcpSize) topology.dcpSize]
  exact List.map_congr_left fun g _ => by rw [Nat.div_add_mod']

theorem dcpGroups_grouping :
    Grouping topology.dcpGroups topology.worldSize (· / topology.dcpSize) (· % topology.dcpSize) := by
  have hworld : topology.worldSize = topology.dpSize * topology.pcpSize *
      (topology.attentionTpSize / topology.dcpSize) * topology.dcpSize := by
    have hdvd : topology.dcpSize ∣ topology.attentionTpSize := topology.dcpSize_dvd
    rw [Nat.mul_assoc, Nat.div_mul_cancel hdvd, worldSize, ← pcpSize_mul]
    ring
  rw [dcpGroups_eq, hworld]
  exact Grouping.runs dcpSize_pos

theorem pcpGroups_eq : topology.pcpGroups =
    (List.range (topology.dpSize * topology.attentionTpSize)).map fun g =>
      (List.range topology.pcpSize).map fun pcpRank =>
        g / topology.attentionTpSize * topology.tpSize + pcpRank * topology.attentionTpSize +
          g % topology.attentionTpSize :=
  flatMap_range topology.dpSize topology.attentionTpSize fun replica attentionRank =>
    (List.range topology.pcpSize).map fun pcpRank =>
      replica * topology.tpSize + pcpRank * topology.attentionTpSize + attentionRank

/-- A context group has the ranks of one replica that share an attention rank. -/
theorem pcpGroups_grouping :
    Grouping topology.pcpGroups topology.worldSize
      (fun r => r / topology.tpSize * topology.attentionTpSize + r % topology.attentionTpSize)
      (fun r => r % topology.tpSize / topology.attentionTpSize) := by
  have hwidth : 0 < topology.attentionTpSize := attentionTpSize_pos
  have htp : topology.pcpSize * topology.attentionTpSize = topology.tpSize := pcpSize_mul
  rw [pcpGroups_eq]
  refine Grouping.of_elem (fun r hr => ⟨?_, ?_, ?_⟩) fun g hg i hi => ?_
  · have hreplica : r / topology.tpSize < topology.dpSize := Nat.div_lt_of_lt_mul hr
    calc r / topology.tpSize * topology.attentionTpSize + r % topology.attentionTpSize
        < r / topology.tpSize * topology.attentionTpSize + topology.attentionTpSize :=
          Nat.add_lt_add_left (Nat.mod_lt r hwidth) _
      _ = (r / topology.tpSize + 1) * topology.attentionTpSize := (Nat.succ_mul ..).symm
      _ ≤ topology.dpSize * topology.attentionTpSize := Nat.mul_le_mul_right _ hreplica
  · refine Nat.div_lt_of_lt_mul ?_
    rw [Nat.mul_comm, htp]
    exact Nat.mod_lt r tpSize_pos
  · obtain ⟨hdiv, hmod⟩ := div_mod_of_lt (q := r / topology.tpSize) (Nat.mod_lt r hwidth)
    have hrank : r % topology.attentionTpSize = r % topology.tpSize % topology.attentionTpSize :=
      (Nat.mod_mod_of_dvd r attentionTpSize_dvd).symm
    rw [hdiv, hmod, hrank, Nat.add_assoc, Nat.div_add_mod', Nat.div_add_mod']
  · have hm : g % topology.attentionTpSize < topology.attentionTpSize := Nat.mod_lt g hwidth
    have hreplica : g / topology.attentionTpSize < topology.dpSize :=
      Nat.div_lt_of_lt_mul (by rwa [Nat.mul_comm])
    have hinside : i * topology.attentionTpSize + g % topology.attentionTpSize < topology.tpSize :=
      calc i * topology.attentionTpSize + g % topology.attentionTpSize
          < i * topology.attentionTpSize + topology.attentionTpSize := Nat.add_lt_add_left hm _
        _ = (i + 1) * topology.attentionTpSize := (Nat.succ_mul ..).symm
        _ ≤ topology.tpSize := htp ▸ Nat.mul_le_mul_right _ hi
    rw [Nat.add_assoc]
    obtain ⟨hdiv, hmod⟩ := div_mod_of_lt (q := g / topology.attentionTpSize) hinside
    obtain ⟨hplace, hrank⟩ := div_mod_of_lt (q := i) hm
    refine ⟨?_, ?_, ?_⟩
    · calc _ < g / topology.attentionTpSize * topology.tpSize + topology.tpSize :=
            Nat.add_lt_add_left hinside _
        _ = topology.tpSize * (g / topology.attentionTpSize + 1) := by ring
        _ ≤ topology.worldSize := Nat.mul_le_mul_left _ hreplica
    · rw [hdiv, ← Nat.mod_mod_of_dvd _ attentionTpSize_dvd, hmod, hrank, Nat.div_add_mod']
    · rw [hmod, hplace]

/-! ### How the axes lie in each other -/

theorem exists_attentionTpGroup {group : List Nat} (h : group ∈ topology.dcpGroups) :
    ∃ attentionGroup ∈ topology.attentionTpGroups, group ⊆ attentionGroup := by
  obtain ⟨attentionGroup, hattention, hgroup⟩ := List.mem_flatMap.mp h
  obtain ⟨start, -, rfl⟩ := List.mem_map.mp hgroup
  exact ⟨attentionGroup, hattention,
    fun _ hr => List.drop_subset _ _ (List.take_subset _ _ hr)⟩

theorem mem_replicaMembers {replica r : Nat} :
    r ∈ topology.replicaMembers (some replica) ↔
      replica * topology.tpSize ≤ r ∧ r < replica * topology.tpSize + topology.tpSize :=
  List.mem_range'_1

/-- A column of a replica that stays inside it. -/
theorem column_mem {replica pcpRank a : Nat} (hpcp : pcpRank < topology.pcpSize)
    (ha : a < topology.attentionTpSize) :
    replica * topology.tpSize + pcpRank * topology.attentionTpSize + a ∈
      topology.replicaMembers (some replica) := by
  refine mem_replicaMembers.mpr ⟨by omega, ?_⟩
  calc replica * topology.tpSize + pcpRank * topology.attentionTpSize + a
      < replica * topology.tpSize + (pcpRank + 1) * topology.attentionTpSize := by
        rw [Nat.succ_mul]
        omega
    _ ≤ replica * topology.tpSize + topology.pcpSize * topology.attentionTpSize :=
        Nat.add_le_add_left (Nat.mul_le_mul_right _ hpcp) _
    _ = replica * topology.tpSize + topology.tpSize := by rw [pcpSize_mul]

theorem exists_replica_of_attentionTp {group : List Nat} (h : group ∈ topology.attentionTpGroups) :
    ∃ replica < topology.dpSize, group ⊆ topology.replicaMembers (some replica) := by
  obtain ⟨replica, hreplica, hgroup⟩ := List.mem_flatMap.mp h
  obtain ⟨pcpRank, hpcp, rfl⟩ := List.mem_map.mp hgroup
  refine ⟨replica, List.mem_range.mp hreplica, fun r hr => ?_⟩
  obtain ⟨a, ha, rfl⟩ := List.mem_range'.mp hr
  rw [Nat.one_mul]
  exact column_mem (List.mem_range.mp hpcp) ha

theorem exists_replica_of_pcp {group : List Nat} (h : group ∈ topology.pcpGroups) :
    ∃ replica < topology.dpSize, group ⊆ topology.replicaMembers (some replica) := by
  obtain ⟨replica, hreplica, hgroup⟩ := List.mem_flatMap.mp h
  obtain ⟨attentionRank, hattention, rfl⟩ := List.mem_map.mp hgroup
  refine ⟨replica, List.mem_range.mp hreplica, fun r hr => ?_⟩
  obtain ⟨pcpRank, hpcp, rfl⟩ := List.mem_map.mp hr
  exact column_mem (List.mem_range.mp hpcp) (List.mem_range.mp hattention)

theorem replica_unique {replica replica' r : Nat}
    (h : r ∈ topology.replicaMembers (some replica))
    (h' : r ∈ topology.replicaMembers (some replica')) : replica = replica' := by
  have hdiv {replica : Nat} (h : r ∈ topology.replicaMembers (some replica)) :
      r / topology.tpSize = replica := by
    obtain ⟨hge, hlt⟩ := mem_replicaMembers.mp h
    exact Nat.div_eq_of_lt_le hge (by rwa [Nat.succ_mul])
  rw [← hdiv h, ← hdiv h']

/-- The two axes of a replica cross in one rank. -/
theorem attentionTp_cross_pcp {group group' : List Nat} {replica : Nat}
    (hgroup : group ∈ topology.attentionTpGroups) (hgroup' : group' ∈ topology.pcpGroups)
    (hin : group ⊆ topology.replicaMembers (some replica))
    (hin' : group' ⊆ topology.replicaMembers (some replica)) :
    ∃! r, r ∈ group ∧ r ∈ group' := by
  obtain ⟨replica₁, -, hmap⟩ := List.mem_flatMap.mp hgroup
  obtain ⟨pcpRank, hpcp, rfl⟩ := List.mem_map.mp hmap
  obtain ⟨replica₂, -, hmap'⟩ := List.mem_flatMap.mp hgroup'
  obtain ⟨attentionRank, hattention, rfl⟩ := List.mem_map.mp hmap'
  have hpcp := List.mem_range.mp hpcp
  have hattention := List.mem_range.mp hattention
  have hrow {r : Nat} (base : Nat) : r ∈ List.range' (base + pcpRank * topology.attentionTpSize)
      topology.attentionTpSize ↔ ∃ a < topology.attentionTpSize,
        r = base + pcpRank * topology.attentionTpSize + a := by
    simp [List.mem_range']
  -- the row and the column are in the same replica
  have hfirst : replica₁ = replica :=
    replica_unique (column_mem hpcp attentionTpSize_pos)
      (hin ((hrow _).mpr ⟨0, attentionTpSize_pos, rfl⟩))
  have hsecond : replica₂ = replica :=
    replica_unique (column_mem pcpSize_pos hattention)
      (hin' (List.mem_map_of_mem (List.mem_range.mpr pcpSize_pos)))
  subst hfirst hsecond
  refine ⟨_, ⟨(hrow _).mpr ⟨attentionRank, hattention, rfl⟩,
      List.mem_map_of_mem (List.mem_range.mpr hpcp)⟩, ?_⟩
  rintro r ⟨hr, hr'⟩
  obtain ⟨a, ha, rfl⟩ := (hrow _).mp hr
  obtain ⟨p, -, heq⟩ := List.mem_map.mp hr'
  have hsame : p * topology.attentionTpSize + attentionRank =
      pcpRank * topology.attentionTpSize + a := by omega
  have hplace : attentionRank = a := by
    rw [← (div_mod_of_lt (q := p) hattention).2, hsame, (div_mod_of_lt ha).2]
  rw [hplace]

end ParallelTopology

/-! ### Building the process groups -/

/-- A group `dist.new_group` makes. -/
structure ProcessGroup where
  members : List Nat
  backend : String
  deriving DecidableEq, Repr

/-- A loop of `init_parallel`: a group for each list of members, of which the rank keeps the
one it is in. -/
def newGroups (backend : String) (globalRank : Nat) (groups : List (List Nat)) :
    List ProcessGroup × Option ProcessGroup :=
  groups.foldl (fun made members =>
    let group := { members, backend }
    (made.1 ++ [group], if globalRank ∈ members then some group else made.2)) ([], none)

/-- A loop of `init_parallel` that pairs each group with one on the CPU, and of which the rank
keeps the pair at its own index. -/
def newGroupPairs (backend : String) (mine count : Nat) (members : Nat → List Nat) :
    List ProcessGroup × Option (ProcessGroup × ProcessGroup) :=
  (List.range count).foldl (fun made index =>
    let group := { members := members index, backend }
    let cpuGroup := if backend = "gloo" then group else { group with backend := "gloo" }
    (made.1 ++ if backend = "gloo" then [group] else [group, cpuGroup],
      if index = mine then some (group, cpuGroup) else made.2)) ([], none)

/-- What `init_parallel` leaves in the module, with the groups in the order they were made. -/
structure ParallelState where
  calls : List ProcessGroup
  tpGroup : Option ProcessGroup
  tpCpuGroup : Option ProcessGroup
  attnTpGroup : Option ProcessGroup
  pcpGroup : Option ProcessGroup
  dcpGroup : Option ProcessGroup
  dpGroup : Option ProcessGroup
  dpCpuGroup : Option ProcessGroup
  epGroup : Option ProcessGroup
  epRank : Nat
  epWorldSize : Nat
  deriving DecidableEq, Repr

/-- Place this process in the rank grid. -/
def initParallel (topology : ParallelTopology) (backend : String)
    (enableExpertParallel enableDpAttention : Bool) : ParallelState :=
  let dpAttention := enableDpAttention && decide (topology.dpSize > 1)
  if topology.tpSize ≤ 1 ∧ dpAttention = false then
    { calls := [], tpGroup := none, tpCpuGroup := none, attnTpGroup := none, pcpGroup := none
      dcpGroup := none, dpGroup := none, dpCpuGroup := none, epGroup := none
      epRank := 0, epWorldSize := 1 }
  else
    let tp :=
      if topology.tpSize > 1 then
        newGroupPairs backend topology.dpRank topology.dpSize fun replica =>
          List.range' (replica * topology.tpSize) topology.tpSize
      else ([], none)
    let attnTp :=
      if topology.pcpSize = 1 then ([], tp.2.map Prod.fst)
      else if topology.attentionTpSize > 1 then
        newGroups backend topology.globalRank topology.attentionTpGroups
      else ([], none)
    let pcp :=
      if topology.pcpSize > 1 then newGroups backend topology.globalRank topology.pcpGroups
      else ([], none)
    let dcp :=
      if topology.dcpSize > 1 then
        if topology.dcpSize = topology.attentionTpSize then ([], attnTp.2)
        else newGroups backend topology.globalRank topology.dcpGroups
      else ([], none)
    -- the DP axis is the stride through the grid
    let dp :=
      if dpAttention then
        newGroupPairs backend topology.tpRank topology.tpSize fun lane =>
          ParallelTopology.strided lane topology.worldSize topology.tpSize
      else ([], none)
    let world : ProcessGroup := { members := List.range topology.worldSize, backend }
    let ep :=
      if enableExpertParallel then
        if dpAttention then ([world], some world) else ([], tp.2.map Prod.fst)
      else ([], none)
    { calls := tp.1 ++ attnTp.1 ++ pcp.1 ++ dcp.1 ++ dp.1 ++ ep.1
      tpGroup := tp.2.map Prod.fst
      tpCpuGroup := tp.2.map Prod.snd
      attnTpGroup := attnTp.2
      pcpGroup := pcp.2
      dcpGroup := dcp.2
      dpGroup := dp.2.map Prod.fst
      dpCpuGroup := dp.2.map Prod.snd
      epGroup := ep.2
      epRank :=
        if enableExpertParallel then
          if dpAttention then topology.globalRank else topology.tpRank
        else 0
      epWorldSize :=
        if enableExpertParallel then
          if dpAttention then topology.worldSize else topology.tpSize
        else 1 }

variable {backend : String} {globalRank mine count : Nat} {groups : List (List Nat)}
  {members : Nat → List Nat} {group : ProcessGroup}

/-- Which groups a loop makes does not depend on the rank that runs it. -/
theorem newGroups_calls :
    (newGroups backend globalRank groups).1 = groups.map fun members => { members, backend } := by
  induction groups using List.reverseRecOn with
  | nil => rfl
  | append_singleton groups members ih =>
    rw [newGroups, List.foldl_append, List.map_append, ← ih]
    rfl

theorem newGroupPairs_calls :
    (newGroupPairs backend mine count members).1 = (List.range count).flatMap fun index =>
      let group : ProcessGroup := { members := members index, backend }
      if backend = "gloo" then [group] else [group, { group with backend := "gloo" }] := by
  induction count with
  | zero => rfl
  | succ count ih =>
    rw [newGroupPairs, List.range_succ, List.foldl_append, List.flatMap_append, ← ih,
      List.flatMap_singleton]
    by_cases hgloo : backend = "gloo" <;> simp [newGroupPairs, hgloo]

/-- The group a rank keeps is one it is in. -/
theorem newGroups_kept (h : (newGroups backend globalRank groups).2 = some group) :
    globalRank ∈ group.members ∧ group.members ∈ groups := by
  induction groups using List.reverseRecOn with
  | nil => exact nomatch h
  | append_singleton groups members ih =>
    rw [newGroups, List.foldl_append] at h
    simp only [List.foldl_cons, List.foldl_nil] at h
    by_cases hmem : globalRank ∈ members
    · rw [if_pos hmem] at h
      cases h
      exact ⟨hmem, List.mem_append_right _ List.mem_cons_self⟩
    · rw [if_neg hmem] at h
      obtain ⟨hrank, hgroup⟩ := ih h
      exact ⟨hrank, List.mem_append_left _ hgroup⟩

theorem newGroupPairs_kept {pair : ProcessGroup × ProcessGroup}
    (h : (newGroupPairs backend mine count members).2 = some pair) :
    pair.1.members = members mine := by
  induction count with
  | zero => exact nomatch h
  | succ count ih =>
    rw [newGroupPairs, List.range_succ, List.foldl_append] at h
    simp only [List.foldl_cons, List.foldl_nil] at h
    by_cases hmine : count = mine
    · subst hmine
      rw [if_pos rfl] at h
      cases h
      rfl
    · rw [if_neg hmine] at h
      exact ih h

namespace ParallelTopology

/-- Two ranks of one grid. -/
structure SameGrid (topology other : ParallelTopology) : Prop where
  tpSize_eq : topology.tpSize = other.tpSize
  dpSize_eq : topology.dpSize = other.dpSize
  pcpSize_eq : topology.pcpSize = other.pcpSize
  dcpSize_eq : topology.dcpSize = other.dcpSize

namespace SameGrid

variable {topology other : ParallelTopology} (h : topology.SameGrid other)

include h

theorem attentionTpSize_eq : topology.attentionTpSize = other.attentionTpSize := by
  rw [attentionTpSize, attentionTpSize, h.tpSize_eq, h.pcpSize_eq]

theorem attentionTpGroups_eq : topology.attentionTpGroups = other.attentionTpGroups := by
  simp only [attentionTpGroups, h.attentionTpSize_eq, h.tpSize_eq, h.dpSize_eq, h.pcpSize_eq]

theorem pcpGroups_eq : topology.pcpGroups = other.pcpGroups := by
  simp only [pcpGroups, h.attentionTpSize_eq, h.tpSize_eq, h.dpSize_eq, h.pcpSize_eq]

theorem dcpGroups_eq : topology.dcpGroups = other.dcpGroups := by
  simp only [dcpGroups, h.attentionTpGroups_eq, h.dcpSize_eq]

theorem replicaMembers_eq (replica : Nat) :
    topology.replicaMembers (some replica) = other.replicaMembers (some replica) := by
  simp only [replicaMembers, Option.getD_some, h.tpSize_eq]

theorem worldSize_eq : topology.worldSize = other.worldSize := by
  rw [worldSize, worldSize, h.tpSize_eq, h.dpSize_eq]

/-- **The ranks make the same groups in the same order**, whatever their coordinates. -/
theorem calls_eq (backend : String) (enableExpertParallel enableDpAttention : Bool) :
    (initParallel topology backend enableExpertParallel enableDpAttention).calls =
      (initParallel other backend enableExpertParallel enableDpAttention).calls := by
  simp only [initParallel, h.attentionTpSize_eq, h.tpSize_eq, h.dpSize_eq, h.pcpSize_eq,
    h.dcpSize_eq, h.worldSize_eq, h.attentionTpGroups_eq, h.pcpGroups_eq, h.dcpGroups_eq]
  by_cases halone : other.tpSize ≤ 1 ∧ (enableDpAttention && decide (other.dpSize > 1)) = false
  · simp only [if_pos halone]
  · simp only [if_neg halone, apply_ite Prod.fst, newGroups_calls, newGroupPairs_calls]

end SameGrid

/-- The sizes of an accepted grid are the ones it was asked for. -/
theorem create_ok {globalRank tpSize dpSize pcpSize dcpSize : Int} {strategy backend : String}
    {topology : ParallelTopology}
    (h : create globalRank tpSize dpSize pcpSize dcpSize strategy backend = .ok topology) :
    topology.globalRank = globalRank.toNat ∧ topology.tpSize = tpSize.toNat ∧
      topology.dpSize = dpSize.toNat ∧ topology.pcpSize = pcpSize.toNat ∧
      topology.dcpSize = dcpSize.toNat := by
  unfold create at h
  split at h
  · cases h
  split at h
  · cases h
  split at h
  · cases h
  split at h
  · cases h
  split at h
  · cases h
  split at h
  · cases h
  split at h
  · cases h
  · cases h
    exact ⟨rfl, rfl, rfl, rfl, rfl⟩

/-- The groups cut the world into pieces, and the piece a rank is in is `width` wide and holds
the rank at `place`. -/
structure Splits (groups : List (List Nat)) (worldSize width rank place : Nat) : Prop where
  perm : groups.flatten.Perm (List.range worldSize)
  exists_mem : ∃ group ∈ groups, rank ∈ group
  of_mem : ∀ group ∈ groups, rank ∈ group → group.length = width ∧ group[place]? = some rank

end ParallelTopology

open ParallelTopology

theorem Grouping.splits {groups : List (List Nat)} {n width rank : Nat} {index place : Nat → Nat}
    (h : Grouping groups n index place) (hrank : rank < n)
    (hwidth : ∀ group ∈ groups, group.length = width) : Splits groups n width rank (place rank) where
  perm := h.perm
  exists_mem := h.exists_mem hrank
  of_mem group hgroup hr := ⟨hwidth group hgroup, h.getElem?_place hgroup hr⟩

namespace ParallelTopology

variable {topology : ParallelTopology}

theorem length_of_mem_runs {groups : List (List Nat)} {count width : Nat}
    (h : groups = (List.range count).map fun g => List.range' (g * width) width) :
    ∀ group ∈ groups, group.length = width := by
  subst h
  intro group hgroup
  obtain ⟨g, -, rfl⟩ := List.mem_map.mp hgroup
  exact List.length_range'

theorem replicas_splits :
    Splits ((List.range topology.dpSize).map fun replica => topology.replicaMembers (some replica))
      topology.worldSize topology.tpSize topology.globalRank topology.tpRank :=
  replicas_grouping.splits topology.globalRank_lt (length_of_mem_runs rfl)

theorem attentionTpGroups_splits : Splits topology.attentionTpGroups topology.worldSize
    topology.attentionTpSize topology.globalRank topology.attentionTpRank := by
  rw [attentionTpRank_eq]
  exact attentionTpGroups_grouping.splits topology.globalRank_lt
    (length_of_mem_runs attentionTpGroups_eq)

theorem dcpGroups_splits : Splits topology.dcpGroups topology.worldSize topology.dcpSize
    topology.globalRank topology.dcpRank := by
  rw [dcpRank_eq]
  exact dcpGroups_grouping.splits topology.globalRank_lt (length_of_mem_runs dcpGroups_eq)

theorem pcpGroups_splits : Splits topology.pcpGroups topology.worldSize topology.pcpSize
    topology.globalRank topology.pcpRank := by
  refine pcpGroups_grouping.splits topology.globalRank_lt fun group hgroup => ?_
  rw [pcpGroups_eq] at hgroup
  obtain ⟨g, -, rfl⟩ := List.mem_map.mp hgroup
  rw [List.length_map, List.length_range]

/-- **The rank grid**, for all sizes the constructor accepts. -/
theorem create_partitions {globalRank tpSize dpSize pcpSize dcpSize : Int}
    {strategy backend : String}
    (h : create globalRank tpSize dpSize pcpSize dcpSize strategy backend = .ok topology) :
    Splits topology.attentionTpGroups topology.worldSize topology.attentionTpSize
        topology.globalRank topology.attentionTpRank ∧
      Splits topology.pcpGroups topology.worldSize topology.pcpSize
        topology.globalRank topology.pcpRank ∧
      Splits topology.dcpGroups topology.worldSize topology.dcpSize
        topology.globalRank topology.dcpRank ∧
      Splits ((List.range topology.dpSize).map fun replica =>
          topology.replicaMembers (some replica)) topology.worldSize topology.tpSize
        topology.globalRank topology.tpRank ∧
      (∀ group ∈ topology.dcpGroups, ∃ attentionGroup ∈ topology.attentionTpGroups,
        group ⊆ attentionGroup) ∧
      (∀ group ∈ topology.attentionTpGroups ++ topology.pcpGroups, ∃ replica < topology.dpSize,
        group ⊆ topology.replicaMembers (some replica)) ∧
      (∀ replica, ∀ group ∈ topology.attentionTpGroups, ∀ group' ∈ topology.pcpGroups,
        group ⊆ topology.replicaMembers (some replica) →
        group' ⊆ topology.replicaMembers (some replica) → ∃! r, r ∈ group ∧ r ∈ group') ∧
      ∀ (otherRank : Int) (other : ParallelTopology),
        create otherRank tpSize dpSize pcpSize dcpSize strategy backend = .ok other →
        other.attentionTpGroups = topology.attentionTpGroups ∧
          other.pcpGroups = topology.pcpGroups ∧
          other.dcpGroups = topology.dcpGroups ∧
          (∀ replica, other.replicaMembers (some replica) =
            topology.replicaMembers (some replica)) ∧
          ∀ (groupBackend : String) (enableExpertParallel enableDpAttention : Bool),
            (initParallel other groupBackend enableExpertParallel enableDpAttention).calls =
              (initParallel topology groupBackend enableExpertParallel enableDpAttention).calls := by
  refine ⟨attentionTpGroups_splits, pcpGroups_splits, dcpGroups_splits, replicas_splits,
    fun group hgroup => exists_attentionTpGroup hgroup, fun group hgroup => ?_,
    fun replica group hgroup group' hgroup' => attentionTp_cross_pcp hgroup hgroup',
    fun otherRank other hother => ?_⟩
  · rcases List.mem_append.mp hgroup with hgroup | hgroup
    · exact exists_replica_of_attentionTp hgroup
    · exact exists_replica_of_pcp hgroup
  · obtain ⟨-, htp, hdp, hpcp, hdcp⟩ := create_ok h
    obtain ⟨-, htp', hdp', hpcp', hdcp'⟩ := create_ok hother
    have hsame : other.SameGrid topology :=
      ⟨htp'.trans htp.symm, hdp'.trans hdp.symm, hpcp'.trans hpcp.symm, hdcp'.trans hdcp.symm⟩
    exact ⟨hsame.attentionTpGroups_eq, hsame.pcpGroups_eq, hsame.dcpGroups_eq,
      hsame.replicaMembers_eq, hsame.calls_eq⟩

/-- Rank 5 of two replicas of four ranks, each axis two wide. -/
theorem create_partitions_eight : ∃ topology : ParallelTopology,
    create 5 4 2 2 2 "zigzag" "ag_rs" = .ok topology ∧
      Splits topology.pcpGroups topology.worldSize topology.pcpSize topology.globalRank
        topology.pcpRank ∧
      topology.pcpGroups = [[0, 2], [1, 3], [4, 6], [5, 7]] :=
  have h : create 5 4 2 2 2 "zigzag" "ag_rs" = .ok _ := rfl
  ⟨_, h, (create_partitions h).2.1, by decide⟩

end ParallelTopology

end RapidLlm
