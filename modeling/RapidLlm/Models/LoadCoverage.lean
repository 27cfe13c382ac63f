import RapidLlm.Models.Weights

/-!
# RapidLlm.Models.LoadCoverage

**What a load that returns has written.** Each tensor of the stream fills one span of rows of one
parameter, whole in the other dimensions, so a parameter's history is a list of spans; the counter
`_verify_coverage` compares is the sum of their lengths, and the value of an element is the last
fill's that has its row.

The spans of different shard ids are apart from each other, and two fills of a parameter that both
take all of it already exceed its size. What is left for a count to miss is one shard id twice.
-/

namespace RapidLlm

variable {A : Type}

/-! ### What one loader writes -/

namespace CkptTensor

/-- The coordinate of a share in the whole tensor. -/
def shareIndex (dim shards place : Nat) (shape index : List Nat) : List Nat :=
  if 1 < shards then index.modify dim (place * (shape.getD dim 0 / shards) + ·) else index

theorem share_inv {t t' : CkptTensor A} {dim shards place : Nat}
    (h : t.share dim shards place = .ok t') (index : List Nat) :
    t'.entry index = t.entry (shareIndex dim shards place t.shape index) := by
  unfold share at h
  unfold shareIndex
  split at h
  · next hshards =>
    rw [if_pos hshards]
    cases hextent : t.shape[dim]? with
    | none => rw [hextent] at h; cases h
    | some extent =>
      rw [hextent] at h
      cases h
      rw [List.getD_eq_getElem?_getD, hextent]
      rfl
  · next hshards =>
    cases h
    rw [if_neg hshards]

end CkptTensor

namespace Parameter

/-- The number of elements in one row. -/
def rowSize (param : Parameter) : Nat := param.shape.tail.prod

theorem shape_prod (param : Parameter) : param.shape.prod = param.rows * param.rowSize := by
  unfold rows rowSize
  cases param.shape with
  | nil => rfl
  | cons extent rest => exact List.prod_cons

/-- Block `index` of a fused `[q | k | v]` with `rows` rows; there are three. -/
def qkvSpan (qSize kvSize rows index : Nat) : Span :=
  match qkvBlock (qSize / ((qSize + 2 * kvSize) / rows)) (kvSize / ((qSize + 2 * kvSize) / rows))
      index with
  | some (offset, count) => ⟨offset, count⟩
  | none => ⟨0, 0⟩

/-- The part of a packed parameter a shard id stands for. -/
def piece (param : Parameter) (shardId : Option ShardId) : Option Span :=
  match param.loader, shardId with
  | .column, some (.block index) => some ⟨index * (param.rows / 2), param.rows / 2⟩
  | .qkv qSize kvSize, some (.block index) => some (qkvSpan qSize kvSize param.rows index)
  | _, _ => none

/-- The rows a shard id stands for. -/
def block (param : Parameter) (shardId : Option ShardId) : Span :=
  (param.piece shardId).getD ⟨0, param.rows⟩

/-- The element of a checkpoint tensor that belongs at an element of the parameter: its place in
the block, moved to the rank's share. -/
def sourceIndex (param : Parameter) (env : LoadRank) (shardId : Option ShardId)
    (shape index : List Nat) : List Nat :=
  match param.loader with
  | .default => index
  | .column => CkptTensor.shareIndex 0 env.grid.tpSize env.rank shape
      (index.modify 0 (· - (param.block shardId).start))
  | .row => CkptTensor.shareIndex 1 env.grid.tpSize env.rank shape index
  | .qkv .. => CkptTensor.shareIndex 0 (qkvShards env shardId).1 (qkvShards env shardId).2 shape
      (index.modify 0 (· - (param.block shardId).start))

/-- What a loader's fill is. -/
structure Fills (param : Parameter) (env : LoadRank) (shardId : Option ShardId)
    (loaded : CkptTensor A) (fill : Fill A) : Prop where
  span_eq : fill.span = param.block shardId
  inside : fill.span.start + fill.span.count ≤ param.rows
  numel_eq : fill.source.shape.prod = fill.span.count * param.rowSize
  entry_eq : ∀ index, fill.entryAt index = loaded.entry (param.sourceIndex env shardId loaded.shape index)

theorem copyInto_inv {view : Span × List Nat} {loaded : CkptTensor A} {fill : Fill A}
    (h : copyInto view loaded = .ok fill) : fill = ⟨view.1, loaded⟩ ∧ loaded.shape = view.2 := by
  unfold copyInto at h
  split at h
  · cases h
  · next hshape =>
    cases h
    exact ⟨rfl, (not_not.mp hshape).symm⟩

theorem entryAt_of_start {fill : Fill A} (h : fill.span.start = 0) (index : List Nat) :
    fill.entryAt index = fill.source.entry index := by
  unfold Fill.entryAt
  rw [h]
  cases index <;> rfl

/-- A view of a range of rows. -/
structure RowView (param : Parameter) (span : Span) (view : Span × List Nat) : Prop where
  span_eq : view.1 = span
  inside : span.start + span.count ≤ param.rows
  numel_eq : view.2.prod = span.count * param.rowSize

theorem whole_view (param : Parameter) : RowView param ⟨0, param.rows⟩ param.whole where
  span_eq := rfl
  inside := (Nat.zero_add _).le
  numel_eq := param.shape_prod

theorem narrowRows_view {param : Parameter} {extent start count : Nat} {rest : List Nat}
    {view : Span × List Nat} (hshape : param.shape = extent :: rest)
    (h : param.narrowRows start count = .ok view) : RowView param ⟨start, count⟩ view := by
  unfold narrowRows at h
  split at h
  · cases h
  · next hinside =>
    cases h
    refine ⟨rfl, Nat.le_of_not_lt hinside, ?_⟩
    unfold rowSize
    rw [hshape]
    exact List.prod_cons

theorem columnView_inv {param : Parameter} {shardId : Option ShardId} {view : Span × List Nat}
    (hloader : param.loader = .column) (h : param.columnView shardId = .ok view) :
    RowView param (param.block shardId) view := by
  unfold columnView at h
  split at h
  · cases h
    simp only [block, piece, hloader]
    exact param.whole_view
  · split at h
    · cases h
    · next index extent rest hshape =>
      have hrows : param.rows = extent := by rw [rows, hshape]; rfl
      simp only [block, piece, hloader, hrows]
      exact narrowRows_view hshape h
  · cases h

theorem qkvView_inv {param : Parameter} {qSize kvSize : Nat} {shardId : Option ShardId}
    {view : Span × List Nat} (hloader : param.loader = .qkv qSize kvSize)
    (h : param.qkvView qSize kvSize shardId = .ok view) :
    RowView param (param.block shardId) view := by
  unfold qkvView at h
  split at h
  · cases h
  split at h
  · cases h
  next shardId extent rest hshape =>
  have hrows : param.rows = extent := by rw [rows, hshape]; rfl
  split at h
  · cases h
  split at h
  · cases h
  next index =>
  split at h
  · cases h
  next offset count hblock =>
  simp only [block, piece, qkvSpan, hloader, hrows, hblock]
  exact narrowRows_view hshape h

/-- A loader fills the block its shard id stands for with the rank's share. -/
theorem weightLoader_inv {param : Parameter} {env : LoadRank} {shardId : Option ShardId}
    {loaded : CkptTensor A} {fill : Fill A} (h : param.weightLoader env shardId loaded = .ok fill) :
    param.Fills env shardId loaded fill := by
  unfold weightLoader at h
  split at h
  · next hloader =>
    unfold defaultWeightLoader at h
    split at h
    · cases h
    next hshape =>
    cases h
    refine ⟨by simp [block, piece, hloader], (Nat.zero_add _).le, ?_, ?_⟩
    · rw [← not_not.mp hshape]
      exact param.shape_prod
    · intro index
      simp only [sourceIndex, hloader]
      exact entryAt_of_start rfl index
  · next hloader =>
    obtain ⟨view, hview, h⟩ := bind_eq_ok.mp h
    obtain ⟨share, hshare, h⟩ := bind_eq_ok.mp h
    obtain ⟨rfl, hshape⟩ := copyInto_inv h
    obtain ⟨hspan, hinside, hnumel⟩ := columnView_inv hloader hview
    refine ⟨hspan, hspan ▸ hinside, by rw [hshape, hnumel, hspan], ?_⟩
    intro index
    simp only [Fill.entryAt, sourceIndex, hloader, hspan]
    exact CkptTensor.share_inv hshare _
  · next hloader =>
    obtain ⟨share, hshare, h⟩ := bind_eq_ok.mp h
    obtain ⟨rfl, hshape⟩ := copyInto_inv h
    refine ⟨by simp [block, piece, hloader, whole], (Nat.zero_add _).le, ?_, ?_⟩
    · rw [hshape]
      exact param.shape_prod
    · intro index
      simp only [sourceIndex, hloader]
      rw [entryAt_of_start rfl]
      exact CkptTensor.share_inv hshare _
  · next qSize kvSize hloader =>
    obtain ⟨view, hview, h⟩ := bind_eq_ok.mp h
    obtain ⟨share, hshare, h⟩ := bind_eq_ok.mp h
    obtain ⟨rfl, hshape⟩ := copyInto_inv h
    obtain ⟨hspan, hinside, hnumel⟩ := qkvView_inv hloader hview
    refine ⟨hspan, hspan ▸ hinside, by rw [hshape, hnumel, hspan], ?_⟩
    intro index
    simp only [Fill.entryAt, sourceIndex, hloader, hspan]
    exact CkptTensor.share_inv hshare _

/-- The blocks of `[q | k | v]` are apart. -/
theorem qkvSpans_apart {qSize kvSize rows index index' : Nat} (hne : index ≠ index') :
    (qkvSpan qSize kvSize rows index).Apart (qkvSpan qSize kvSize rows index') := by
  intro row ⟨h, h'⟩
  unfold qkvSpan at h h'
  match index, index' with
  | 0, 0 | 1, 1 | 2, 2 => exact hne rfl
  | 0, 1 | 0, 2 | 1, 0 | 1, 2 | 2, 0 | 2, 1 =>
    simp only [qkvBlock, Span.Has] at h h'
    omega
  | index + 3, _ =>
    simp only [qkvBlock, Span.Has] at h
    omega
  | _, index' + 3 =>
    simp only [qkvBlock, Span.Has] at h'
    omega

/-- The parts of a packed parameter are apart. -/
theorem pieces_apart {param : Parameter} {shardId shardId' : Option ShardId} {span span' : Span}
    (h : param.piece shardId = some span) (h' : param.piece shardId' = some span')
    (hne : shardId ≠ shardId') : span.Apart span' := by
  unfold piece at h h'
  split at h
  · next index hloader =>
    rw [hloader] at h'
    split at h'
    · next index' _ =>
      cases h
      cases h'
      have hindex : index ≠ index' := fun heq => hne (by rw [heq])
      intro row ⟨hrow, hrow'⟩
      simp only [Span.Has] at hrow hrow'
      rcases Nat.lt_or_gt_of_ne hindex with hlt | hlt
      · have := Nat.mul_le_mul_right (param.rows / 2) hlt
        rw [Nat.succ_mul] at this
        omega
      · have := Nat.mul_le_mul_right (param.rows / 2) hlt
        rw [Nat.succ_mul] at this
        omega
    · next hcontra => cases hcontra
    · cases h'
  · next qSize kvSize index hloader =>
    rw [hloader] at h'
    split at h'
    · next hcontra => cases hcontra
    · next index' hsame =>
      cases hsame
      cases h
      cases h'
      exact qkvSpans_apart fun heq => hne (by rw [heq])
    · cases h'
  · cases h

/-- Blocks of different shard ids are apart, unless they are more than the parameter. -/
theorem blocks_apart {param : Parameter} {shardId shardId' : Option ShardId} (hne : shardId ≠ shardId')
    (hfit : (param.block shardId).count + (param.block shardId').count ≤ param.rows) :
    (param.block shardId).Apart (param.block shardId') := by
  unfold block at hfit ⊢
  cases h : param.piece shardId with
  | none =>
    rw [h] at hfit
    exact .of_empty (Nat.eq_zero_of_not_pos fun hpos => (by simp only [Option.getD_none] at hfit; omega))
  | some span =>
    cases h' : param.piece shardId' with
    | none =>
      rw [h, h'] at hfit
      refine (Span.Apart.of_empty ?_).symm
      simp only [Option.getD_none, Option.getD_some] at hfit ⊢
      omega
    | some span' => exact pieces_apart h h' hne

theorem headD_lt {param : Parameter} {index : List Nat} (h : Inside index param.shape) :
    index.headD 0 < param.rows := by
  unfold rows
  cases hshape : param.shape with
  | nil =>
    rw [hshape] at h
    cases index with
    | nil => exact Nat.one_pos
    | cons i index => exact h.elim
  | cons extent rest =>
    rw [hshape] at h
    cases index with
    | nil => exact h.elim
    | cons i index => exact h.1

/-- A row of a parameter with elements has one. -/
theorem exists_index (param : Parameter) {row : Nat} (hsize : 0 < param.rowSize)
    (hrow : row < param.rows) : ∃ index, Inside index param.shape ∧ index.headD 0 = row := by
  unfold rows at hrow
  unfold rowSize at hsize
  cases hshape : param.shape with
  | nil =>
    rw [hshape] at hrow
    exact ⟨[], trivial, (Nat.lt_one_iff.mp hrow).symm⟩
  | cons extent rest =>
    rw [hshape] at hrow hsize
    refine ⟨row :: rest.map fun _ => 0, ⟨hrow, ?_⟩, rfl⟩
    have hrest : ∀ shape : List Nat, 0 < shape.prod → Inside (shape.map fun _ => 0) shape := by
      intro shape
      induction shape with
      | nil => exact fun _ => trivial
      | cons extent shape ih =>
        intro hpos
        rw [List.prod_cons] at hpos
        exact ⟨Nat.pos_of_mul_pos_right hpos, ih (Nat.pos_of_mul_pos_left hpos)⟩
    exact hrest rest hsize

end Parameter

/-! ### What a stream writes -/

section Stream

variable {env : LoadRank} {params : ParameterDict} {translate : Translator}
  {stream : List (TensorName × CkptTensor A)} {entry : TensorName × CkptTensor A}
  {name : TensorName} {st st' : Loading A}

/-- The fill a tensor of the stream makes in a parameter. -/
def fillOf (env : LoadRank) (params : ParameterDict) (translate : Translator) (name : TensorName)
    (entry : TensorName × CkptTensor A) : Option (Fill A) :=
  match targetFill env params translate entry with
  | .ok (some (target, fill)) => if target = name then some fill else none
  | _ => none

/-- The fills of a parameter, in the order of the stream. -/
def fillsOf (env : LoadRank) (params : ParameterDict) (translate : Translator)
    (stream : List (TensorName × CkptTensor A)) (name : TensorName) : List (Fill A) :=
  stream.filterMap (fillOf env params translate name)

/-- The value of an element after some fills. -/
def filledValue (fills : List (Fill A)) (index : List Nat) (value : A) : A :=
  fills.foldl (fun value fill => if fill.Covers index then fill.entryAt index else value) value

theorem Loading.put_filled (st : Loading A) (target : Option (TensorName × Fill A))
    (name : TensorName) : (st.put target).filled name = st.filled name +
      ((target.bind fun t => if t.1 = name then some t.2 else none).map
        fun fill => fill.source.shape.prod).getD 0 := by
  rcases target with _ | ⟨target, fill⟩
  · rfl
  · by_cases h : target = name
    · subst h
      simp [put]
    · simp [put, h, Function.update_of_ne (Ne.symm h)]

theorem Loading.put_memory (st : Loading A) (target : Option (TensorName × Fill A))
    (name : TensorName) (index : List Nat) : (st.put target).memory name index =
      filledValue (target.bind fun t => if t.1 = name then some t.2 else none).toList index
        (st.memory name index) := by
  rcases target with _ | ⟨target, fill⟩
  · rfl
  · by_cases h : target = name
    · subst h
      simp [put, filledValue, Fill.write]
    · simp [put, h, filledValue, Function.update_of_ne (Ne.symm h)]

/-- A stream that loads, one tensor at a time. -/
theorem loadStream_cons {entry : TensorName × CkptTensor A}
    (h : loadStream env params translate (entry :: stream) st = .ok st') :
    ∃ target, targetFill env params translate entry = .ok target ∧
      loadStream env params translate stream (st.put target) = .ok st' ∧
      ∀ name, fillOf env params translate name entry =
        target.bind fun t => if t.1 = name then some t.2 else none := by
  obtain ⟨target, htarget, hrest⟩ := bind_eq_ok.mp h
  refine ⟨target, htarget, hrest, ?_⟩
  intro name
  rw [fillOf, htarget]
  rcases target with _ | ⟨target, fill⟩
  · rfl
  · rfl

theorem loadStream_filled (h : loadStream env params translate stream st = .ok st')
    (name : TensorName) : st'.filled name = st.filled name +
      ((fillsOf env params translate stream name).map fun fill => fill.source.shape.prod).sum := by
  induction stream generalizing st with
  | nil =>
    cases h
    rfl
  | cons entry stream ih =>
    obtain ⟨target, -, hrest, hfill⟩ := loadStream_cons h
    rw [ih hrest, Loading.put_filled, ← hfill name, fillsOf, fillsOf, List.filterMap_cons]
    cases fillOf env params translate name entry with
    | none => simp
    | some fill =>
      rw [List.map_cons, List.sum_cons, Nat.add_assoc]
      rfl

theorem loadStream_memory (h : loadStream env params translate stream st = .ok st')
    (name : TensorName) (index : List Nat) : st'.memory name index =
      filledValue (fillsOf env params translate stream name) index (st.memory name index) := by
  induction stream generalizing st with
  | nil =>
    cases h
    rfl
  | cons entry stream ih =>
    obtain ⟨target, -, hrest, hfill⟩ := loadStream_cons h
    rw [ih hrest, Loading.put_memory, ← hfill name, fillsOf, fillsOf, List.filterMap_cons]
    cases fillOf env params translate name entry with
    | none => rfl
    | some fill => rfl

theorem loadStream_ok (h : loadStream env params translate stream st = .ok st')
    (hmem : entry ∈ stream) : ∃ target, targetFill env params translate entry = .ok target := by
  induction stream generalizing st with
  | nil => cases hmem
  | cons head stream ih =>
    obtain ⟨target, htarget, hrest, -⟩ := loadStream_cons h
    rcases List.mem_cons.mp hmem with rfl | hmem
    · exact ⟨target, htarget⟩
    · exact ih hrest hmem

/-- A tensor with a target fills it, where the stream loads. -/
theorem fillOf_eq_some {shardId : Option ShardId} {param : Parameter}
    (hok : ∃ target, targetFill env params translate entry = .ok target)
    (htarget : translate entry.1 = some (name, shardId)) (hparam : params.lookup name = some param) :
    ∃ fill, fillOf env params translate name entry = some fill ∧
      param.Fills env shardId entry.2 fill := by
  obtain ⟨target, hok⟩ := hok
  unfold fillOf
  unfold targetFill at hok ⊢
  simp only [htarget, hparam] at hok ⊢
  cases hload : param.weightLoader env shardId entry.2 with
  | ok fill => exact ⟨fill, if_pos rfl, Parameter.weightLoader_inv hload⟩
  | error raised =>
    rw [hload] at hok
    cases raised <;> cases hok

/-- A fill of a parameter comes from a tensor with that target. -/
theorem fillOf_inv {fill : Fill A} {param : Parameter} (hparam : params.lookup name = some param)
    (h : fillOf env params translate name entry = some fill) :
    ∃ shardId, translate entry.1 = some (name, shardId) ∧ param.Fills env shardId entry.2 fill := by
  unfold fillOf at h
  split at h
  · next target fill' htarget =>
    split at h
    · next hname =>
      subst hname
      cases h
      unfold targetFill at htarget
      split at htarget
      · cases htarget
      next target' shardId hkey =>
      split at htarget
      · cases htarget
      next param' hlookup =>
      split at htarget
      · next fill' hload =>
        cases htarget
        cases hparam.symm.trans hlookup
        exact ⟨shardId, hkey, Parameter.weightLoader_inv hload⟩
      · cases htarget
      · cases htarget
    · cases h
  · cases h

/-- A value written by one fill only is that fill's. -/
theorem filledValue_eq {fills : List (Fill A)} {fill : Fill A} {index : List Nat} (value : A)
    (hmem : fill ∈ fills) (hcovers : fill.Covers index)
    (honce : fills.countP (fun fill => decide (fill.Covers index)) = 1) :
    filledValue fills index value = fill.entryAt index := by
  have hkeep : ∀ (fills : List (Fill A)) (value : A),
      fills.countP (fun fill => decide (fill.Covers index)) = 0 →
        filledValue fills index value = value := by
    intro fills
    induction fills with
    | nil => exact fun _ _ => rfl
    | cons head fills ih =>
      intro value hzero
      rw [List.countP_cons] at hzero
      by_cases hhead : head.Covers index
      · simp [hhead] at hzero
      · have : filledValue (head :: fills) index value = filledValue fills index value := by
          simp [filledValue, hhead]
        rw [this]
        exact ih value (by omega)
  induction fills generalizing value with
  | nil => cases hmem
  | cons head fills ih =>
    rw [List.countP_cons] at honce
    by_cases hhead : head.Covers index
    · simp only [hhead, decide_true, if_true] at honce
      have hzero : fills.countP (fun fill => decide (fill.Covers index)) = 0 := by omega
      have hfill : fill = head := by
        rcases List.mem_cons.mp hmem with heq | hmem'
        · exact heq
        · exact absurd (decide_eq_true hcovers) (List.countP_eq_zero.mp hzero fill hmem')
      have : filledValue (head :: fills) index value =
          filledValue fills index (head.entryAt index) := by
        simp [filledValue, hhead]
      rw [this, hkeep fills _ hzero, hfill]
    · have hmem' : fill ∈ fills := by
        rcases List.mem_cons.mp hmem with rfl | hmem'
        · exact absurd hcovers hhead
        · exact hmem'
      have : filledValue (head :: fills) index value = filledValue fills index value := by
        simp [filledValue, hhead]
      rw [this]
      exact ih value hmem' (by simpa [hhead] using honce)

end Stream

/-! ### What the end of a load checks -/

section Checked

variable {params : ParameterDict} {tied : List (TensorName × TensorName)}
  {filled : TensorName → Nat} {st st' : (TensorName → Nat) × List (TensorName × TensorName)}
  {name : TensorName} {param : Parameter}

theorem tieParameters_aliases (h : tieParameters params tied st = .ok st') : st.2 ⊆ st'.2 := by
  induction tied generalizing st with
  | nil =>
    cases h
    exact List.Subset.refl _
  | cons tie tied ih =>
    unfold tieParameters at h
    split at h
    · exact ih h
    · split at h
      · split at h
        · cases h
        · exact fun tie' hmem => ih h (List.mem_append_left _ hmem)
      · exact ih h

/-- The count of a parameter that is not rebound is the stream's. -/
theorem tieParameters_filled (h : tieParameters params tied st = .ok st')
    (hname : name ∉ st'.2.map Prod.fst) : st'.1 name = st.1 name := by
  induction tied generalizing st with
  | nil =>
    cases h
    rfl
  | cons tie tied ih =>
    unfold tieParameters at h
    split at h
    · exact ih h
    · split at h
      · split at h
        · cases h
        · rw [ih h]
          refine Function.update_of_ne ?_ _ _
          rintro rfl
          exact hname (List.mem_map.mpr ⟨tie, tieParameters_aliases h
            (List.mem_append_right _ List.mem_cons_self), rfl⟩)
      · exact ih h

/-- Nothing in the stream wrote a parameter that is rebound. -/
theorem tieParameters_unfilled (h : tieParameters params tied st = .ok st')
    (hname : name ∈ st'.2.map Prod.fst) : name ∈ st.2.map Prod.fst ∨ st.1 name = 0 := by
  induction tied generalizing st with
  | nil =>
    cases h
    exact .inl hname
  | cons tie tied ih =>
    unfold tieParameters at h
    split at h
    · exact ih h
    · split at h
      · next hzero =>
        split at h
        · cases h
        · by_cases heq : name = tie.1
          · exact .inr (heq ▸ hzero)
          · rcases ih h with hmem | hmem
            · refine .inl ?_
              rw [List.map_append, List.mem_append] at hmem
              exact hmem.resolve_right (by simpa using heq)
            · exact .inr ((Function.update_of_ne heq _ _).symm.trans hmem)
      · exact ih h

theorem sortedNames_eq_nil {names : List TensorName} (h : sortedNames names = []) : names = [] := by
  have hlen := congrArg List.length h
  rw [sortedNames, List.length_insertionSort] at hlen
  exact List.length_eq_zero_iff.mp hlen

/-- Coverage that passes: every parameter has a count, and it is its size. -/
theorem verifyCoverage_inv (h : verifyCoverage params filled = .ok ())
    (hparam : params.lookup name = some param) :
    filled name ≠ 0 ∧ filled name = param.shape.prod := by
  have hmem : (name, param) ∈ params := by
    clear h
    induction params with
    | nil => cases hparam
    | cons entry params ih =>
      obtain ⟨key, value⟩ := entry
      rw [List.lookup_cons] at hparam
      split at hparam
      · next heq =>
        cases hparam
        rw [eq_of_beq heq]
        exact List.mem_cons_self
      · exact List.mem_cons_of_mem _ (ih hparam)
  unfold verifyCoverage at h
  split at h
  · next hnone =>
    obtain ⟨hmissing, hmismatched⟩ := hnone
    have hcount : filled name ≠ 0 := by
      intro hzero
      have hnil := List.map_eq_nil_iff.mp (sortedNames_eq_nil hmissing)
      exact List.filter_eq_nil_iff.mp hnil _ hmem (decide_eq_true hzero)
    refine ⟨hcount, ?_⟩
    by_contra hne
    have hnil := List.map_eq_nil_iff.mp (sortedNames_eq_nil hmismatched)
    have hbad : 0 < filled name ∧ filled name ≠ param.shape.prod := ⟨Nat.pos_of_ne_zero hcount, hne⟩
    exact List.filter_eq_nil_iff.mp hnil _ hmem (decide_eq_true hbad)
  · cases h

end Checked

/-! ### Coverage -/

section Coverage

/-- A tensor of the stream that writes an element. -/
def writes (env : LoadRank) (params : ParameterDict) (translate : Translator) (name : TensorName)
    (index : List Nat) (entry : TensorName × CkptTensor A) : Bool :=
  (fillOf env params translate name entry).any fun fill => decide (fill.Covers index)

/-- An element has been written once, by the element its shard rule assigns to it. -/
structure WrittenOnce (env : LoadRank) (params : ParameterDict) (translate : Translator)
    (stream : List (TensorName × CkptTensor A)) (memory : TensorName → List Nat → A)
    (name : TensorName) (param : Parameter) (index : List Nat) : Prop where
  once : stream.countP (writes env params translate name index) = 1
  value_eq : ∀ entry ∈ stream, writes env params translate name index entry = true →
    ∀ shardId, translate entry.1 = some (name, shardId) →
      memory name index = entry.2.entry (param.sourceIndex env shardId entry.2.shape index)

/-- No two tensors of a stream go to one block, but for blocks without a row. -/
def DistinctBlocks (params : ParameterDict) (translate : Translator)
    (stream : List (TensorName × CkptTensor A)) : Prop :=
  stream.Pairwise fun entry entry' => ∀ name shardId param,
    translate entry.1 = some (name, shardId) → translate entry'.1 = some (name, shardId) →
      params.lookup name = some param → (param.block shardId).count = 0

variable {env : LoadRank} {params : ParameterDict} {translate : Translator}
  {stream : List (TensorName × CkptTensor A)} {tied : List (TensorName × TensorName)}
  {memory : TensorName → List Nat → A} {result : LoadedModel A} {name : TensorName}
  {param : Parameter} {index : List Nat}

/-- The writes of an element are the hits of its row. -/
theorem countP_writes (env : LoadRank) (params : ParameterDict) (translate : Translator)
    (stream : List (TensorName × CkptTensor A)) (name : TensorName) (index : List Nat) :
    stream.countP (writes env params translate name index) =
      (fillsOf env params translate stream name).countP fun fill => decide (fill.Covers index) := by
  induction stream with
  | nil => rfl
  | cons entry stream ih =>
    rw [List.countP_cons, ih, fillsOf, fillsOf, List.filterMap_cons]
    cases hfill : fillOf env params translate name entry with
    | none => simp [writes, hfill]
    | some fill => simp [writes, hfill, List.countP_cons]

/-- The parts of a load that returns. -/
theorem loadWeights_inv
    (h : loadWeights env params translate stream tied memory = .ok result) :
    ∃ st tiedState, loadStream env params translate stream ⟨fun _ => 0, memory⟩ = .ok st ∧
      tieParameters params tied (st.filled, []) = .ok tiedState ∧
      verifyCoverage params tiedState.1 = .ok () ∧ result = ⟨st.memory, tiedState.2⟩ := by
  obtain ⟨st, hst, h⟩ := bind_eq_ok.mp h
  obtain ⟨tiedState, htied, h⟩ := bind_eq_ok.mp h
  obtain ⟨⟨⟩, hcoverage, h⟩ := bind_eq_ok.mp h
  cases h
  exact ⟨st, tiedState, hst, htied, hcoverage, rfl⟩

/-- The rows filled in a parameter of a load that returns: none when it is rebound, and otherwise
as many as it has. -/
theorem filled_rows (h : loadWeights env params translate stream tied memory = .ok result)
    (hparam : params.lookup name = some param) :
    0 < param.rows ∧ 0 < param.rowSize ∧
      ((name ∈ result.aliases.map Prod.fst ∧
          ((fillsOf env params translate stream name).map fun fill => fill.span.count).sum = 0) ∨
        (name ∉ result.aliases.map Prod.fst ∧
          ((fillsOf env params translate stream name).map fun fill => fill.span.count).sum =
            param.rows)) := by
  obtain ⟨st, tiedState, hst, htied, hcoverage, rfl⟩ := loadWeights_inv h
  obtain ⟨hne, heq⟩ := verifyCoverage_inv hcoverage hparam
  have hprod : param.shape.prod ≠ 0 := heq ▸ hne
  rw [param.shape_prod] at hprod heq
  have hrows : 0 < param.rows := Nat.pos_of_ne_zero (left_ne_zero_of_mul hprod)
  have hsize : 0 < param.rowSize := Nat.pos_of_ne_zero (right_ne_zero_of_mul hprod)
  -- the count of the stream, in rows
  have hcount : st.filled name =
      ((fillsOf env params translate stream name).map fun fill => fill.span.count).sum *
        param.rowSize := by
    have hnumel : ∀ fill ∈ fillsOf env params translate stream name,
        fill.source.shape.prod = fill.span.count * param.rowSize := by
      intro fill hfill
      obtain ⟨entry, -, hentry⟩ := List.mem_filterMap.mp hfill
      obtain ⟨shardId, -, hfills⟩ := fillOf_inv hparam hentry
      exact hfills.numel_eq
    rw [loadStream_filled hst name, Nat.zero_add, List.map_congr_left hnumel, List.sum_map_mul_right]
  refine ⟨hrows, hsize, ?_⟩
  by_cases halias : name ∈ tiedState.2.map Prod.fst
  · refine .inl ⟨halias, ?_⟩
    rcases tieParameters_unfilled htied halias with hmem | hzero
    · cases hmem
    · have hzero : st.filled name = 0 := hzero
      rw [hcount] at hzero
      exact (Nat.mul_eq_zero.mp hzero).resolve_right hsize.ne'
  · refine .inr ⟨halias, ?_⟩
    have heq := (tieParameters_filled htied halias).symm.trans heq
    simp only [hcount] at heq
    exact Nat.eq_of_mul_eq_mul_right hsize heq

/-- A parameter no block of which arrives twice is written once, row by row. -/
theorem hits_of_distinct (h : loadWeights env params translate stream tied memory = .ok result)
    (hparam : params.lookup name = some param) (halias : name ∉ result.aliases.map Prod.fst)
    (hdistinct : DistinctBlocks params translate stream) {row : Nat} (hrow : row < param.rows) :
    Span.hits ((fillsOf env params translate stream name).map Fill.span) row = 1 := by
  obtain ⟨hrows, -, hcount⟩ := filled_rows h hparam
  have hsum := (hcount.resolve_left fun hleft => halias hleft.1).2
  refine Span.hits_eq_one ?_ ?_ ?_ hrow
  · intro span hspan
    obtain ⟨fill, hfill, rfl⟩ := List.mem_map.mp hspan
    obtain ⟨entry, -, hentry⟩ := List.mem_filterMap.mp hfill
    obtain ⟨shardId, -, hfills⟩ := fillOf_inv hparam hentry
    exact hfills.inside
  · rw [List.pairwise_map, fillsOf, List.pairwise_filterMap, List.pairwise_iff_forall_sublist]
    intro entry entry' hsub fill hentry fill' hentry'
    obtain ⟨shardId, hkey, hfills⟩ := fillOf_inv hparam hentry
    obtain ⟨shardId', hkey', hfills'⟩ := fillOf_inv hparam hentry'
    rw [hfills.span_eq, hfills'.span_eq]
    by_cases hsame : shardId = shardId'
    · subst hsame
      exact .of_empty (List.pairwise_iff_forall_sublist.mp hdistinct hsub name shardId param hkey
        hkey' hparam)
    · refine Parameter.blocks_apart hsame ?_
      -- the two fills are among those that add up to the parameter
      have hpair := (hsub.filterMap (fillOf env params translate name)).map fun fill => fill.span.count
      simp only [List.filterMap_cons, hentry, hentry', List.filterMap_nil, List.map_cons,
        List.map_nil] at hpair
      have hle := hpair.sum_le_sum fun _ _ => Nat.zero_le _
      rw [fillsOf] at hsum
      rw [hsum, List.sum_cons, List.sum_singleton, hfills.span_eq, hfills'.span_eq] at hle
      exact hle
  · rw [List.map_map]
    exact hsum

/-- An element written once holds what its shard rule assigns to it. -/
theorem writtenOnce_of_hits (h : loadWeights env params translate stream tied memory = .ok result)
    (hparam : params.lookup name = some param)
    (hhits : Span.hits ((fillsOf env params translate stream name).map Fill.span)
      (index.headD 0) = 1) :
    WrittenOnce env params translate stream result.memory name param index := by
  have honce : (fillsOf env params translate stream name).countP
      (fun fill => decide (fill.Covers index)) = 1 := by
    rw [Span.hits, List.countP_map] at hhits
    exact hhits
  refine ⟨(countP_writes env params translate stream name index).trans honce, ?_⟩
  intro entry hentry hwrites shardId hkey
  obtain ⟨st, tiedState, hst, -, -, rfl⟩ := loadWeights_inv h
  obtain ⟨fill, hfill, hfills⟩ := fillOf_eq_some (loadStream_ok hst hentry) hkey hparam
  have hcovers : fill.Covers index := by
    rw [writes, hfill] at hwrites
    exact of_decide_eq_true hwrites
  have hmem : fill ∈ fillsOf env params translate stream name :=
    List.mem_filterMap.mpr ⟨entry, hentry, hfill⟩
  refine (loadStream_memory hst name index).trans ?_
  rw [filledValue_eq _ hmem hcovers honce]
  exact hfills.entry_eq index

/-- Two tensors of one block write its first element twice. -/
theorem distinct_of_writtenOnce (h : loadWeights env params translate stream tied memory = .ok result)
    (hall : ∀ name param, params.lookup name = some param → name ∉ result.aliases.map Prod.fst →
      ∀ index, Inside index param.shape →
        WrittenOnce env params translate stream result.memory name param index) :
    DistinctBlocks params translate stream := by
  refine List.pairwise_iff_forall_sublist.mpr ?_
  intro entry entry' hsub name shardId param hkey hkey' hparam
  obtain ⟨st, tiedState, hst, -, -, rfl⟩ := loadWeights_inv h
  have hmem := hsub.subset
  obtain ⟨fill, hfill, hfills⟩ := fillOf_eq_some (loadStream_ok hst (hmem (by simp))) hkey hparam
  obtain ⟨fill', hfill', hfills'⟩ := fillOf_eq_some (loadStream_ok hst (hmem (by simp))) hkey' hparam
  obtain ⟨hrows, hsize, hcount⟩ := filled_rows h hparam
  by_contra hpos
  have hstart : (param.block shardId).start + (param.block shardId).count ≤ param.rows :=
    hfills.span_eq ▸ hfills.inside
  have halias : name ∉ tiedState.2.map Prod.fst := by
    intro halias
    have hzero := (hcount.resolve_right fun hright => hright.1 halias).2
    have hin : fill.span.count ∈ (fillsOf env params translate stream name).map
        fun fill => fill.span.count :=
      List.mem_map.mpr ⟨fill, List.mem_filterMap.mpr ⟨entry, hmem (by simp), hfill⟩, rfl⟩
    have := List.sum_eq_zero_iff.mp hzero _ hin
    rw [hfills.span_eq] at this
    exact hpos this
  obtain ⟨index, hindex, hrow⟩ := param.exists_index hsize
    (show (param.block shardId).start < param.rows by omega)
  have honce := (hall name param hparam halias index hindex).once
  have htwice : 2 ≤ stream.countP (writes env params translate name index) := by
    have hhas : (param.block shardId).Has (index.headD 0) := by
      rw [hrow]
      exact ⟨le_rfl, by omega⟩
    have hw : writes env params translate name index entry = true := by
      rw [writes, hfill]
      exact decide_eq_true (show fill.span.Has _ from hfills.span_eq ▸ hhas)
    have hw' : writes env params translate name index entry' = true := by
      rw [writes, hfill']
      exact decide_eq_true (show fill'.span.Has _ from hfills'.span_eq ▸ hhas)
    have hle := hsub.countP_le (p := writes env params translate name index)
    simpa [List.countP_cons, hw, hw'] using hle
  omega

/-- **When coverage by counts is coverage.** A load that returns has written every element of every
parameter that is not rebound exactly once, by the element of the tensor its shard rule assigns to
it, exactly when no two tensors of the stream went to one block. -/
theorem load_covers_iff (env : LoadRank) (params : ParameterDict) (translate : Translator)
    (stream : List (TensorName × CkptTensor A)) (tied : List (TensorName × TensorName))
    (memory : TensorName → List Nat → A) (result : LoadedModel A)
    (loads : loadWeights env params translate stream tied memory = .ok result) :
    (∀ name param, params.lookup name = some param → name ∉ result.aliases.map Prod.fst →
      ∀ index, Inside index param.shape →
        WrittenOnce env params translate stream result.memory name param index) ↔
      DistinctBlocks params translate stream := by
  constructor
  · exact distinct_of_writtenOnce loads
  · intro hdistinct name param hparam halias index hindex
    have hrow : index.headD 0 < param.rows := param.headD_lt hindex
    exact writtenOnce_of_hits loads hparam (hits_of_distinct loads hparam halias hdistinct hrow)

end Coverage

/-! ### A gate/up pair -/

/-- The mapping of a fused gate/up projection. -/
def gateUpMapping : List (TensorName × List TensorName) :=
  [("gate_up_proj".toList, ["gate_proj".toList, "up_proj".toList])]

/-- A model with one gate/up projection of four rows. -/
def gateUpModel : ParameterDict := [("mlp.gate_up_proj.weight".toList, ⟨.column, [4, 1]⟩)]

/-- The rank of a grid of one. -/
def onlyRank : LoadRank := ⟨oneRank, 0, oneRank.tpSize_pos⟩

theorem load_covers_iff_gate_up : ∃ result,
    loadWeights onlyRank gateUpModel (translateTextKey gateUpMapping)
      [("mlp.up_proj.weight".toList, ⟨[2, 1], fun _ => 7⟩),
        ("mlp.gate_proj.weight".toList, ⟨[2, 1], fun _ => 5⟩)] [] (fun _ _ => 0) = .ok result ∧
    ∀ name param, gateUpModel.lookup name = some param → name ∉ result.aliases.map Prod.fst →
      ∀ index, Inside index param.shape →
        WrittenOnce onlyRank gateUpModel (translateTextKey gateUpMapping)
          [("mlp.up_proj.weight".toList, ⟨[2, 1], fun _ => 7⟩),
            ("mlp.gate_proj.weight".toList, ⟨[2, 1], fun _ => 5⟩)]
          result.memory name param index := by
  refine ⟨_, rfl, (load_covers_iff onlyRank gateUpModel (translateTextKey gateUpMapping) _ []
    (fun _ _ => (0 : Nat)) _ rfl).mpr ?_⟩
  refine List.pairwise_pair.mpr ?_
  intro name shardId param hup hgate
  have hupTarget : translateTextKey gateUpMapping "mlp.up_proj.weight".toList =
      some ("mlp.gate_up_proj.weight".toList, some (.block 1)) := by decide
  have hgateTarget : translateTextKey gateUpMapping "mlp.gate_proj.weight".toList =
      some ("mlp.gate_up_proj.weight".toList, some (.block 0)) := by decide
  cases hupTarget.symm.trans hup
  cases hgateTarget.symm.trans hgate

/-- Gate arrives twice and up never: as many elements as the parameter has, and its lower half was
never written. -/
theorem gate_twice_loads : ∃ result,
    loadWeights onlyRank gateUpModel (translateTextKey gateUpMapping)
      [("mlp.gate_proj.weight".toList, ⟨[2, 1], fun _ => 5⟩),
        ("mlp.gate_proj.weight".toList, ⟨[2, 1], fun _ => 5⟩)] [] (fun _ _ => 0) =
        .ok result ∧
    result.memory "mlp.gate_up_proj.weight".toList [2, 0] = 0 ∧
    ¬ ∀ name param, gateUpModel.lookup name = some param → name ∉ result.aliases.map Prod.fst →
      ∀ index, Inside index param.shape →
        WrittenOnce onlyRank gateUpModel (translateTextKey gateUpMapping)
          [("mlp.gate_proj.weight".toList, ⟨[2, 1], fun _ => 5⟩),
            ("mlp.gate_proj.weight".toList, ⟨[2, 1], fun _ => 5⟩)]
          result.memory name param index := by
  refine ⟨_, rfl, by decide, ?_⟩
  intro hall
  have honce := (hall "mlp.gate_up_proj.weight".toList ⟨.column, [4, 1]⟩ rfl (by decide) [2, 0]
    (by decide)).once
  exact absurd honce (by decide)

end RapidLlm
