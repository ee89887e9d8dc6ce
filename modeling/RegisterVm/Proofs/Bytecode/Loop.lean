import RegisterVm.Bytecode.Loop

/-!
# The loops of a chunk

`Chunk.loops` has one loop for every header, and every backward jump of the chunk is inside the loop
at its target (`Chunk.exists_loop`, `Chunk.loop_unique`). The loop at a header ends at the furthest
jump back to it (`Chunk.mem_loops`).
-/

namespace RegisterVm

/-- Loops by header, one for each. -/
abbrev Sorted (ls : List LoopRange) : Prop := ls.Pairwise fun l k => l.header < k.header

/-- There is a loop at a header that reaches as far as an address. -/
def Covers (ls : List LoopRange) (header address : Nat) : Prop :=
  ∃ l ∈ ls, l.header = header ∧ address ≤ l.backEdge

theorem Sorted.unique {ls : List LoopRange} {l k : LoopRange} (sorted : Sorted ls) (hl : l ∈ ls)
    (hk : k ∈ ls) (same : l.header = k.header) : l = k := by
  induction ls with
  | nil => cases hl
  | cons first rest ih =>
    obtain ⟨before, sorted⟩ := List.pairwise_cons.mp sorted
    rcases List.mem_cons.mp hl with rfl | later
    · rcases List.mem_cons.mp hk with rfl | later
      · rfl
      · exact absurd same (Nat.ne_of_lt (before k later))
    · rcases List.mem_cons.mp hk with rfl | later'
      · exact absurd same.symm (Nat.ne_of_lt (before l later))
      · exact ih sorted later later'

section AddBackEdge

variable {header backEdge : Nat} {ls : List LoopRange}

/-- The loops are those there were and one that ends at the new jump. -/
theorem mem_of_mem_addBackEdge {l : LoopRange} (h : l ∈ addBackEdge header backEdge ls) :
    l = ⟨header, backEdge⟩ ∨ l ∈ ls := by
  induction ls with
  | nil => exact .inl (List.mem_singleton.mp h)
  | cons k ks ih =>
    simp only [addBackEdge] at h
    split at h
    · exact List.mem_cons.mp h
    · split at h
      · rename_i here
        rcases List.mem_cons.mp h with rfl | later
        · rcases Nat.le_total k.backEdge backEdge with further | nearer
          · exact .inl (by rw [Nat.max_eq_right further])
          · refine .inr (List.mem_cons.mpr (.inl ?_))
            rw [Nat.max_eq_left nearer, here]
        · exact .inr (List.mem_cons_of_mem k later)
      · rcases List.mem_cons.mp h with rfl | later
        · exact .inr List.mem_cons_self
        · exact (ih later).imp_right (List.mem_cons_of_mem k)

theorem sorted_addBackEdge (h : Sorted ls) : Sorted (addBackEdge header backEdge ls) := by
  induction ls with
  | nil => exact List.pairwise_singleton _ _
  | cons k ks ih =>
    obtain ⟨first, rest⟩ := List.pairwise_cons.mp h
    simp only [addBackEdge]
    split
    · rename_i before
      refine List.pairwise_cons.mpr ⟨fun l hl => ?_, h⟩
      rcases List.mem_cons.mp hl with rfl | hl
      · exact before
      · exact Nat.lt_trans before (first l hl)
    · split
      · rename_i same
        exact List.pairwise_cons.mpr ⟨fun l hl => same ▸ first l hl, rest⟩
      · refine List.pairwise_cons.mpr ⟨fun l hl => ?_, ih rest⟩
        rcases mem_of_mem_addBackEdge hl with rfl | hl
        · change k.header < header
          omega
        · exact first l hl

/-- The loop of a new jump reaches as far as the jump. -/
theorem covers_addBackEdge (header backEdge : Nat) (ls : List LoopRange) :
    Covers (addBackEdge header backEdge ls) header backEdge := by
  induction ls with
  | nil => exact ⟨_, List.mem_cons_self, rfl, Nat.le_refl _⟩
  | cons k ks ih =>
    simp only [addBackEdge]
    split
    · exact ⟨_, List.mem_cons_self, rfl, Nat.le_refl _⟩
    · split
      · exact ⟨_, List.mem_cons_self, rfl, Nat.le_max_right _ _⟩
      · obtain ⟨l, hl, reaches⟩ := ih
        exact ⟨l, List.mem_cons_of_mem k hl, reaches⟩

/-- Other loops reach as far as before. -/
theorem Covers.addBackEdge {other address : Nat} (h : Covers ls other address) :
    Covers (addBackEdge header backEdge ls) other address := by
  obtain ⟨l, hl, same, reaches⟩ := h
  induction ls with
  | nil => cases hl
  | cons k ks ih =>
    simp only [RegisterVm.addBackEdge]
    split
    · exact ⟨l, List.mem_cons_of_mem _ hl, same, reaches⟩
    · split
      · rename_i here
        rcases List.mem_cons.mp hl with rfl | hl
        · exact ⟨_, List.mem_cons_self, here.trans same,
            Nat.le_trans reaches (Nat.le_max_left _ _)⟩
        · exact ⟨l, List.mem_cons_of_mem _ hl, same, reaches⟩
      · rcases List.mem_cons.mp hl with rfl | hl
        · exact ⟨l, List.mem_cons_self, same, reaches⟩
        · obtain ⟨l', hl', covers⟩ := ih hl
          exact ⟨l', List.mem_cons_of_mem k hl', covers⟩

end AddBackEdge

/-- Backward jumps are found. -/
theorem mem_backEdges {ops : List Opcode} {i address target : Nat} {op : Opcode}
    (here : ops[i]? = some op) (jumps : op.jumpTarget? = some target)
    (back : target ≤ address + i) : (target, address + i) ∈ backEdges address ops := by
  induction ops generalizing i address with
  | nil => cases here
  | cons first rest ih =>
    cases i with
    | zero =>
      cases here
      rw [Nat.add_zero] at back ⊢
      simp only [backEdges, jumps, if_pos back]
      exact List.mem_cons_self
    | succ i =>
      have later : (target, address + 1 + i) ∈ backEdges (address + 1) rest := ih here (by omega)
      have moved : address + 1 + i = address + (i + 1) := by omega
      rw [moved] at later
      simp only [backEdges]
      split
      · split
        · exact List.mem_cons_of_mem _ later
        · exact later
      · exact later

/-- Only backward jumps are found. -/
theorem exists_of_mem_backEdges {ops : List Opcode} {address : Nat} {e : Nat × Nat}
    (h : e ∈ backEdges address ops) :
    e.1 ≤ e.2 ∧ ∃ i op, e.2 = address + i ∧ ops[i]? = some op ∧ op.jumpTarget? = some e.1 := by
  induction ops generalizing address with
  | nil => cases h
  | cons first rest ih =>
    have later : e ∈ backEdges (address + 1) rest → e.1 ≤ e.2 ∧ ∃ i op, e.2 = address + i ∧
        (first :: rest)[i]? = some op ∧ op.jumpTarget? = some e.1 := by
      intro h
      obtain ⟨back, i, op, there, hop, jumps⟩ := ih h
      exact ⟨back, i + 1, op, by omega, hop, jumps⟩
    simp only [backEdges] at h
    split at h
    · rename_i target jumps
      split at h
      · rename_i back
        rcases List.mem_cons.mp h with rfl | h
        · exact ⟨back, 0, first, rfl, rfl, jumps⟩
        · exact later h
      · exact later h
    · exact later h

namespace Chunk

variable {c : Chunk}

/-- The instruction at an address is a jump to a header, which is not behind it. -/
def JumpsBack (c : Chunk) (header address : Nat) : Prop :=
  header ≤ address ∧ ∃ op, c.opcode? address = some op ∧ op.jumpTarget? = some header

/-- The loops are sorted and cover the jumps that were added. -/
theorem loops_spec (edges : List (Nat × Nat)) {ls : List LoopRange} (sorted : Sorted ls) :
    Sorted (edges.foldl (fun ls e => addBackEdge e.1 e.2 ls) ls) ∧
      (∀ header address, Covers ls header address →
        Covers (edges.foldl (fun ls e => addBackEdge e.1 e.2 ls) ls) header address) ∧
      ∀ e ∈ edges, Covers (edges.foldl (fun ls e => addBackEdge e.1 e.2 ls) ls) e.1 e.2 := by
  induction edges generalizing ls with
  | nil => exact ⟨sorted, fun _ _ covers => covers, fun e he => by cases he⟩
  | cons e edges ih =>
    have more : Sorted (addBackEdge e.1 e.2 ls) := sorted_addBackEdge sorted
    obtain ⟨sorted', kept, added⟩ := ih more
    refine ⟨sorted', fun header address covers => kept header address covers.addBackEdge,
      fun e' he' => ?_⟩
    rcases List.mem_cons.mp he' with rfl | he'
    · exact kept _ _ (covers_addBackEdge _ _ _)
    · exact added e' he'

/-- Every loop was there or ends at a jump that was added. -/
theorem edge_of_mem_foldl (edges : List (Nat × Nat)) {ls : List LoopRange} {l : LoopRange}
    (h : l ∈ edges.foldl (fun ls e => addBackEdge e.1 e.2 ls) ls) :
    (l.header, l.backEdge) ∈ edges ∨ l ∈ ls := by
  induction edges generalizing ls with
  | nil => exact .inr h
  | cons e edges ih =>
    rcases ih h with later | h
    · exact .inl (List.mem_cons_of_mem e later)
    · rcases mem_of_mem_addBackEdge h with rfl | h
      · exact .inl List.mem_cons_self
      · exact .inr h

theorem loops_sorted (c : Chunk) : Sorted c.loops := (loops_spec _ List.Pairwise.nil).1

/-- A loop ends at a jump back to its header. -/
theorem jumpsBack_of_mem_loops {l : LoopRange} (h : l ∈ c.loops) :
    c.JumpsBack l.header l.backEdge := by
  rcases edge_of_mem_foldl _ h with edge | h
  · obtain ⟨back, i, op, there, hop, jumps⟩ := exists_of_mem_backEdges edge
    obtain rfl : i = l.backEdge := by
      simp only [Nat.zero_add] at there
      exact there.symm
    rw [List.getElem?_map, Array.getElem?_toList] at hop
    exact ⟨back, op, hop, jumps⟩
  · cases h

/-- A header has one loop. -/
theorem loop_unique {l k : LoopRange} (hl : l ∈ c.loops) (hk : k ∈ c.loops)
    (same : l.header = k.header) : l = k :=
  c.loops_sorted.unique hl hk same

/-- **A backward jump is inside the loop at its target.** -/
theorem exists_loop {pc target : Nat} {op : Opcode} (hop : c.opcode? pc = some op)
    (jumps : op.jumpTarget? = some target) (back : target ≤ pc) :
    ∃ l ∈ c.loops, l.header = target ∧ l.contains pc = true := by
  have listed : (c.instructions.toList.map (·.opcode))[pc]? = some op := by
    rw [List.getElem?_map, Array.getElem?_toList]
    exact hop
  have edge : (target, 0 + pc) ∈ backEdges 0 (c.instructions.toList.map (·.opcode)) :=
    mem_backEdges listed jumps (by omega)
  obtain ⟨l, hl, same, reaches⟩ := (loops_spec _ List.Pairwise.nil).2.2 _ edge
  refine ⟨l, hl, same, ?_⟩
  simp only [LoopRange.contains, Bool.and_eq_true, decide_eq_true_eq]
  simp only [Nat.zero_add] at same reaches
  omega

/-- **The loops end at the furthest jumps back to their headers.** -/
theorem mem_loops {l : LoopRange} : l ∈ c.loops ↔
    c.JumpsBack l.header l.backEdge ∧ ∀ address, c.JumpsBack l.header address →
      address ≤ l.backEdge := by
  have reached : ∀ {header address}, c.JumpsBack header address →
      ∃ k ∈ c.loops, k.header = header ∧ address ≤ k.backEdge := by
    rintro header address ⟨back, op, hop, jumps⟩
    obtain ⟨k, hk, same, inside⟩ := exists_loop hop jumps back
    simp only [LoopRange.contains, Bool.and_eq_true, decide_eq_true_eq] at inside
    exact ⟨k, hk, same, inside.2⟩
  constructor
  · intro h
    refine ⟨jumpsBack_of_mem_loops h, fun address back => ?_⟩
    obtain ⟨k, hk, same, further⟩ := reached back
    exact loop_unique hk h same ▸ further
  · rintro ⟨back, furthest⟩
    obtain ⟨⟨header, backEdge⟩, hk, rfl, further⟩ := reached back
    have last : l.backEdge = backEdge :=
      Nat.le_antisymm further (furthest _ (jumpsBack_of_mem_loops hk))
    subst last
    exact hk

end Chunk

end RegisterVm
