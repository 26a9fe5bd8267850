import Mathlib.Data.List.Basic
import Mathlib.Order.Monotone.Basic

/-! # Cutting a sequence of blocks into frames, and joining the frames again

A sequence of blocks is cut at increasing places, each inside a block or at its border; a frame
carries what lies between two cuts, as a list of segments, and says whether it starts and whether it
ends inside a block.  A collector takes frames by number, in increasing order and with gaps.  It
keeps the part of the block that a frame ends in, and gives it up when the next frame does not
follow.  `Collected.receive` is the step lemma and `Collected.run` the run lemma: the collector
delivers exactly the blocks all of whose frames it took, unchanged and in their order. -/

namespace Cuts

variable {β : Type*}

/-- A place in a sequence of blocks: a block, and the length of its part before the place. -/
structure Cut where
  block : ℕ
  offset : ℕ
deriving DecidableEq

def blockAt (xs : List (List β)) (i : ℕ) : List β := xs.getD i []

/-- A cut inside a block or at a border. -/
def Cut.Within (xs : List (List β)) (c : Cut) : Prop :=
  c.block < xs.length ∧ c.offset < (blockAt xs c.block).length ∨
    c.block = xs.length ∧ c.offset = 0

def Cut.Before (a b : Cut) : Prop := a.block < b.block ∨ a.block = b.block ∧ a.offset < b.offset

/-- A frame between two cuts has a byte of block `i`. -/
def Carries (a b : Cut) (i : ℕ) : Prop :=
  a.block ≤ i ∧ (i < b.block ∨ i = b.block ∧ b.offset ≠ 0)

instance (a b : Cut) (i : ℕ) : Decidable (Carries a b i) :=
  inferInstanceAs (Decidable (_ ∧ (_ ∨ _ ∧ _)))

/-- What lies between two cuts. -/
def segments (xs : List (List β)) (a b : Cut) : List (List β) :=
  if a.block = b.block then [((blockAt xs a.block).take b.offset).drop a.offset]
  else
    (blockAt xs a.block).drop a.offset ::
      (((List.range' (a.block + 1) (b.block - a.block - 1)).map (blockAt xs)) ++
        if b.offset = 0 then [] else [(blockAt xs b.block).take b.offset])

structure Frame (β : Type*) where
  startsInside : Bool
  endsInside : Bool
  segments : List (List β)

def frame (xs : List (List β)) (a b : Cut) : Frame β where
  startsInside := decide (a.offset ≠ 0)
  endsInside := decide (b.offset ≠ 0)
  segments := segments xs a b

/-! ### The collector -/

/-- The segments of a frame, the first of them behind the part that is kept; it is lost if the frame
starts inside a block of which no part is kept. -/
def parts (kept : Option (List β)) (f : Frame β) : List (Option (List β)) :=
  match f.segments with
  | [] => []
  | s :: ss => (if f.startsInside then kept.map (· ++ s) else some s) :: ss.map some

/-- The part that is kept after a frame, and the blocks that the frame completes. -/
def join (kept : Option (List β)) (f : Frame β) : Option (List β) × List (List β) :=
  if f.endsInside then ((parts kept f).getLast?.join, (parts kept f).dropLast.filterMap id)
  else (none, (parts kept f).filterMap id)

structure Collector (β : Type*) where
  next : ℕ := 0
  kept : Option (List β) := none
  delivered : List (List β) := []

/-- Taking frame `k`. -/
def receive (f : ℕ → Frame β) (s : Collector β) (k : ℕ) : Collector β :=
  let r := join (if k = s.next then s.kept else none) (f k)
  { next := k + 1, kept := r.1, delivered := s.delivered ++ r.2 }

/-! ### Which frames carry a block -/

/-- The first `n` frames, all with something in them. -/
def Increasing (c : ℕ → Cut) (n : ℕ) : Prop := ∀ k < n, (c k).Before (c (k + 1))

/-- Of the first `n` frames, those that carry block `i` are in `ks`. -/
def Whole (c : ℕ → Cut) (n : ℕ) (ks : List ℕ) (i : ℕ) : Prop :=
  ∀ k < n, Carries (c k) (c (k + 1)) i → k ∈ ks

instance (c : ℕ → Cut) (n : ℕ) (ks : List ℕ) (i : ℕ) : Decidable (Whole c n ks i) :=
  inferInstanceAs (Decidable (∀ k < n, Carries (c k) (c (k + 1)) i → k ∈ ks))

variable {c : ℕ → Cut} {n : ℕ} {ks : List ℕ}

theorem Increasing.le (hc : Increasing c n) {j k : ℕ} (hjk : j ≤ k) (hk : k ≤ n) :
    (c j).block < (c k).block ∨ (c j).block = (c k).block ∧ (c j).offset ≤ (c k).offset := by
  induction k, hjk using Nat.le_induction with
  | base => exact .inr ⟨rfl, le_rfl⟩
  | succ k hjk ih =>
      have h1 := ih (by omega)
      have h2 := hc k (by omega)
      unfold Cut.Before at h2
      omega

theorem Increasing.block_le (hc : Increasing c n) {j k : ℕ} (hjk : j ≤ k) (hk : k ≤ n) :
    (c j).block ≤ (c k).block := by
  have h := hc.le hjk hk
  omega

theorem exists_carrier {m i : ℕ} (hm : (c m).block ≤ i) : ∀ {k : ℕ}, m ≤ k → i < (c k).block →
    ∃ j, m ≤ j ∧ j < k ∧ Carries (c j) (c (j + 1)) i := by
  intro k hmk
  induction k, hmk using Nat.le_induction with
  | base => omega
  | succ k hmk ih =>
      intro hi
      by_cases hlast : i < (c k).block
      · obtain ⟨j, h1, h2, h3⟩ := ih hlast
        exact ⟨j, h1, by omega, h3⟩
      · exact ⟨k, hmk, by omega, by omega, .inl hi⟩

theorem not_carries_of_before (hc : Increasing c n) {j k i : ℕ} (hjk : j < k) (hk : k ≤ n)
    (hi : (c k).block < i ∨ (c k).block = i ∧ (c k).offset = 0) :
    ¬ Carries (c j) (c (j + 1)) i := by
  have h := hc.le (show j + 1 ≤ k by omega) hk
  unfold Carries
  omega

theorem not_carries_of_after (hc : Increasing c n) {j k i : ℕ} (hkj : k ≤ j) (hj : j ≤ n)
    (hi : i < (c k).block) : ¬ Carries (c j) (c (j + 1)) i := by
  have h := hc.block_le hkj hj
  unfold Carries
  omega

/-! ### Segments -/

section Segments

variable {xs : List (List β)} {a b : Cut}

theorem blockAt_of_lt {i : ℕ} (h : i < xs.length) : blockAt xs i = xs[i] := by
  rw [blockAt, List.getD_eq_getElem?_getD, List.getElem?_eq_getElem h, Option.getD_some]

theorem blockAt_append {ys : List (List β)} {i : ℕ} (h : i < xs.length) :
    blockAt (xs ++ ys) i = blockAt xs i := by
  rw [blockAt, blockAt, List.getD_eq_getElem?_getD, List.getElem?_append_left h,
    List.getD_eq_getElem?_getD]

theorem segments_border (xs : List (List β)) (a : Cut) :
    segments xs a ⟨a.block + 1, 0⟩ = [(blockAt xs a.block).drop a.offset] := by
  rw [segments, if_neg (Nat.ne_of_lt (Nat.lt_succ_self a.block))]
  simp

theorem segments_cons (h : Cut.Before ⟨a.block + 1, 0⟩ b) :
    segments xs a b = (blockAt xs a.block).drop a.offset :: segments xs ⟨a.block + 1, 0⟩ b := by
  rcases h with h | ⟨h, h0⟩
  · dsimp only at h
    obtain ⟨d, hd⟩ : ∃ d, b.block - a.block - 1 = d + 1 := ⟨b.block - a.block - 2, by omega⟩
    rw [segments, segments, if_neg (show ¬ a.block = b.block by omega), if_neg h.ne, hd]
    dsimp only
    rw [show b.block - (a.block + 1) - 1 = d by omega, List.range'_succ, List.map_cons,
      List.cons_append, List.drop_zero]
  · dsimp only at h h0
    rw [segments, segments, if_neg (by omega), if_pos h, ← h]
    simp [h0.ne']

theorem segments_append {ys : List (List β)} (h : a.Before b) (hb : b.Within xs) :
    segments (xs ++ ys) a b = segments xs a b := by
  have hlt : a.block < xs.length := by
    unfold Cut.Before Cut.Within at *
    omega
  have hmid : ∀ i ∈ List.range' (a.block + 1) (b.block - a.block - 1),
      blockAt (xs ++ ys) i = blockAt xs i := by
    intro i hi
    rw [List.mem_range'_1] at hi
    apply blockAt_append
    unfold Cut.Before Cut.Within at *
    omega
  rw [segments, segments, blockAt_append hlt, List.map_congr_left hmid]
  by_cases h0 : b.offset = 0
  · rw [if_pos h0, if_pos h0]
  · rw [blockAt_append (i := b.block) (by unfold Cut.Within at hb; omega)]

theorem segments_flatten_pos (h : a.Before b) (ha : a.Within xs) (hb : b.Within xs) :
    0 < (segments xs a b).flatten.length := by
  unfold segments
  rcases h with h | ⟨h, h0⟩
  · rw [if_neg h.ne, List.flatten_cons, List.length_append, List.length_drop]
    unfold Cut.Within at *
    omega
  · rw [if_pos h, List.flatten_singleton, List.length_drop, List.length_take]
    unfold Cut.Within at hb
    rw [← h] at hb
    omega

end Segments

/-! ### One frame -/

section Step

variable {xs : List (List β)} {a b : Cut}

theorem filterMap_some (l : List (List β)) : (l.map some).filterMap id = l := by
  rw [List.filterMap_map]
  exact List.filterMap_some

theorem filterMap_cons_some (x : List β) (l : List (Option (List β))) :
    (some x :: l).filterMap id = x :: l.filterMap id := rfl

theorem filterMap_cons_none (l : List (Option (List β))) :
    (none :: l).filterMap id = l.filterMap id := rfl

/-- The first segment of a frame, with what is kept. -/
def head (kept : Option (List β)) (a : Cut) (s : List β) : Option (List β) :=
  if a.offset ≠ 0 then kept.map (· ++ s) else some s

theorem parts_of_eq (kept : Option (List β)) (h : a.block = b.block) :
    parts kept (frame xs a b) =
      [head kept a (((blockAt xs a.block).take b.offset).drop a.offset)] := by
  simp [parts, frame, segments, h, head]

theorem parts_of_lt (kept : Option (List β)) (h : a.block < b.block) :
    parts kept (frame xs a b) =
      head kept a ((blockAt xs a.block).drop a.offset) ::
        (((List.range' (a.block + 1) (b.block - a.block - 1)).map (blockAt xs)).map some ++
          if b.offset = 0 then [] else [some ((blockAt xs b.block).take b.offset)]) := by
  simp only [parts, frame, segments, if_neg h.ne, head, List.map_append]
  congr 1
  · simp
  · split <;> rfl

/-- Nothing of the block at the cut is missing: the cut is at a border or the part before it is
kept. -/
def Alive (kept : Option (List β)) (a : Cut) : Prop := a.offset = 0 ∨ kept ≠ none

/-- What is kept is the part of the block before the cut. -/
def KeepsBefore (xs : List (List β)) (kept : Option (List β)) (a : Cut) : Prop :=
  ∀ u, kept = some u → u = (blockAt xs a.block).take a.offset

theorem head_of_not_alive {kept : Option (List β)} (h : ¬ Alive kept a) (s : List β) :
    head kept a s = none := by
  obtain ⟨h0, hk⟩ := not_or.mp h
  rw [head, if_pos h0, not_not.mp hk, Option.map_none]

theorem head_of_alive {kept : Option (List β)} (hk : KeepsBefore xs kept a) (h : Alive kept a)
    {s l : List β} (hs : (blockAt xs a.block).take a.offset ++ s = l)
    (hs0 : a.offset = 0 → s = l) : head kept a s = some l := by
  unfold head
  split
  · next h0 =>
      obtain ⟨u, hu⟩ := Option.ne_none_iff_exists'.mp (h.resolve_left h0)
      rw [hu, Option.map_some, hk u hu, hs]
  · next h0 => rw [hs0 (not_not.mp h0)]

/-- A frame within one block: nothing is complete, and the part of the block grows. -/
theorem join_of_eq {kept : Option (List β)} (hk : KeepsBefore xs kept a)
    (hblock : a.block = b.block) (hoffset : a.offset < b.offset) :
    (join kept (frame xs a b)).2 = [] ∧
      (Alive kept a →
        (join kept (frame xs a b)).1 = some ((blockAt xs b.block).take b.offset)) ∧
      (¬ Alive kept a → (join kept (frame xs a b)).1 = none) := by
  have hends : (frame xs a b).endsInside = true := by
    simp only [frame, decide_eq_true_eq]
    omega
  rw [join, if_pos hends, parts_of_eq kept hblock]
  refine ⟨rfl, fun h => ?_, fun h => ?_⟩
  · have hsplit : (blockAt xs b.block).take a.offset ++
        ((blockAt xs b.block).take b.offset).drop a.offset = (blockAt xs b.block).take b.offset := by
      have h1 := List.take_append_drop a.offset ((blockAt xs b.block).take b.offset)
      rwa [List.take_take, min_eq_left hoffset.le] at h1
    rw [← hblock] at hsplit ⊢
    rw [head_of_alive hk h hsplit fun h0 => by rw [h0, List.drop_zero]]
    rfl
  · rw [head_of_not_alive h]
    rfl

/-- A frame over a border: the first block is complete if nothing of it is missing, and so are the
blocks inside the frame. -/
theorem join_of_lt {kept : Option (List β)} (hk : KeepsBefore xs kept a)
    (hblock : a.block < b.block) :
    (join kept (frame xs a b)).1 =
        (if b.offset = 0 then none else some ((blockAt xs b.block).take b.offset)) ∧
      (Alive kept a → (join kept (frame xs a b)).2 =
        (List.range' a.block (b.block - a.block)).map (blockAt xs)) ∧
      (¬ Alive kept a → (join kept (frame xs a b)).2 =
        (List.range' (a.block + 1) (b.block - a.block - 1)).map (blockAt xs)) := by
  have hrange : List.range' a.block (b.block - a.block) =
      a.block :: List.range' (a.block + 1) (b.block - a.block - 1) := by
    obtain ⟨d, hd⟩ : ∃ d, b.block - a.block = d + 1 := ⟨b.block - a.block - 1, by omega⟩
    rw [hd, List.range'_succ, Nat.add_sub_cancel]
  have hhead : Alive kept a →
      head kept a ((blockAt xs a.block).drop a.offset) = some (blockAt xs a.block) := fun h =>
    head_of_alive hk h (List.take_append_drop _ _) fun h0 => by rw [h0, List.drop_zero]
  rw [join, parts_of_lt kept hblock, hrange]
  by_cases h0 : b.offset = 0
  · have hends : (frame xs a b).endsInside = false := by simp [frame, h0]
    rw [if_neg (by rw [hends]; exact Bool.false_ne_true), if_pos h0, List.append_nil]
    refine ⟨by rw [if_pos h0], fun h => ?_, fun h => ?_⟩
    · rw [hhead h, filterMap_cons_some, filterMap_some, List.map_cons]
    · rw [head_of_not_alive h, filterMap_cons_none, filterMap_some]
  · have hends : (frame xs a b).endsInside = true := by simp [frame, h0]
    rw [if_pos hends, if_neg h0, if_neg h0, ← List.cons_append, List.dropLast_concat,
      List.getLast?_concat]
    refine ⟨rfl, fun h => ?_, fun h => ?_⟩
    · rw [hhead h, filterMap_cons_some, filterMap_some, List.map_cons]
    · rw [head_of_not_alive h, filterMap_cons_none, filterMap_some]

end Step

/-! ### All frames taken -/

/-- The collector has taken the frames `ks`: it delivered the blocks all of whose frames are among
them, and keeps the part of the block at the next cut if nothing of this part is missing. -/
structure Collected (xs : List (List β)) (c : ℕ → Cut) (ks : List ℕ) (s : Collector β) :
    Prop where
  lt : ∀ k ∈ ks, k < s.next
  kept : s.kept =
    if (c s.next).offset ≠ 0 ∧ Whole c s.next ks (c s.next).block then
      some ((blockAt xs (c s.next).block).take (c s.next).offset)
    else none
  delivered : s.delivered =
    ((List.range (c s.next).block).filter (Whole c s.next ks)).map (blockAt xs)

theorem Collected.init (xs : List (List β)) (h0 : c 0 = ⟨0, 0⟩) : Collected xs c [] {} := by
  refine ⟨fun k hk => absurd hk List.not_mem_nil, ?_, ?_⟩
  · rw [h0, if_neg (by simp)]
  · rw [h0]
    rfl

section Taken

variable {xs : List (List β)} {s : Collector β} {k : ℕ}

/-- The part kept for frame `k`. -/
def keptFor (s : Collector β) (k : ℕ) : Option (List β) := if k = s.next then s.kept else none

theorem Collected.keepsBefore (h : Collected xs c ks s) (k : ℕ) :
    KeepsBefore xs (keptFor s k) (c k) := by
  intro u hu
  rw [keptFor] at hu
  split at hu
  · next hk =>
      rw [h.kept, hk.symm] at hu
      split at hu
      · exact (Option.some.inj hu).symm
      · cases hu
  · cases hu

theorem mem_concat_of_lt {j : ℕ} (hjk : j < k) : j ∈ ks ++ [k] ↔ j ∈ ks := by
  rw [List.mem_append, List.mem_singleton]
  exact ⟨fun h => h.resolve_right (by omega), .inl⟩

theorem whole_of_before (hc : Increasing c n) (hk : k < n) {i : ℕ}
    (hi : (c k).block < i ∨ (c k).block = i ∧ (c k).offset = 0) : Whole c (k + 1) (ks ++ [k]) i := by
  intro j hj hcarries
  obtain hjk | rfl := Nat.lt_succ_iff_lt_or_eq.mp hj
  · exact absurd hcarries (not_carries_of_before hc hjk hk.le hi)
  · exact List.mem_append_right ks List.mem_cons_self

theorem whole_old (hc : Increasing c n) {m : ℕ} (hk : m ≤ k) (hkn : k < n) {i : ℕ}
    (hi : i < (c m).block) : Whole c (k + 1) (ks ++ [k]) i ↔ Whole c m ks i := by
  constructor
  · intro hw j hj hcarries
    exact (mem_concat_of_lt (by omega)).mp (hw j (by omega) hcarries)
  · intro hw j hj hcarries
    by_cases hjs : j < m
    · exact List.mem_append_left _ (hw j hjs hcarries)
    · exact absurd hcarries (not_carries_of_after hc (not_lt.mp hjs) (by omega) hi)

theorem Collected.not_whole_gap (h : Collected xs c ks s) {i : ℕ} {m : ℕ}
    (hm : s.next ≤ m) (hmk : m < k) (hcarries : Carries (c m) (c (m + 1)) i) :
    ¬ Whole c (k + 1) (ks ++ [k]) i := by
  intro hw
  have h1 := h.lt m ((mem_concat_of_lt hmk).mp (hw m (by omega) hcarries))
  omega

/-- Nothing of the block at the cut is missing exactly if all its frames so far were taken. -/
theorem Collected.alive_iff (h : Collected xs c ks s) (hc : Increasing c n) (hk : s.next ≤ k)
    (hkn : k < n) :
    Alive (keptFor s k) (c k) ↔ Whole c (k + 1) (ks ++ [k]) (c k).block := by
  by_cases h0 : (c k).offset = 0
  · exact ⟨fun _ => whole_of_before hc hkn (.inr ⟨rfl, h0⟩), fun _ => .inl h0⟩
  · rw [Alive, keptFor, or_iff_right h0]
    by_cases hks : k = s.next
    · rw [if_pos hks, h.kept, ← hks]
      have hiff : Whole c (k + 1) (ks ++ [k]) (c k).block ↔ Whole c k ks (c k).block := by
        constructor
        · intro hw j hj hcarries
          exact (mem_concat_of_lt hj).mp (hw j (by omega) hcarries)
        · intro hw j hj hcarries
          obtain hjk | rfl := Nat.lt_succ_iff_lt_or_eq.mp hj
          · exact List.mem_append_left _ (hw j hjk hcarries)
          · exact List.mem_append_right ks List.mem_cons_self
      rw [hiff]
      split
      · next hw => exact ⟨fun _ => hw.2, fun _ => Option.some_ne_none _⟩
      · next hw => exact ⟨fun hne => absurd rfl hne, fun hwhole => absurd ⟨h0, hwhole⟩ hw⟩
    · rw [if_neg hks]
      refine ⟨fun hne => absurd rfl hne, fun hw => ?_⟩
      have hle := hc.block_le (show k - 1 ≤ k by omega) hkn.le
      refine absurd hw (h.not_whole_gap (m := k - 1) (by omega) (by omega) ⟨hle, .inr ?_⟩)
      rw [show k - 1 + 1 = k by omega]
      exact ⟨rfl, h0⟩

theorem range_split {p a b : ℕ} (hpa : p ≤ a) (hab : a ≤ b) :
    List.range b = List.range p ++ (List.range' p (a - p) ++ List.range' a (b - a)) := by
  have h1 : List.range' p (a - p) ++ List.range' a (b - a) = List.range' p (b - p) := by
    have h := List.range'_append_1 (s := p) (m := a - p) (n := b - a)
    rwa [show p + (a - p) = a by omega, show a - p + (b - a) = b - p by omega] at h
  have h2 : List.range p ++ List.range' p (b - p) = List.range b := by
    have h := List.range'_append_1 (s := 0) (m := p) (n := b - p)
    rwa [Nat.zero_add, show p + (b - p) = b by omega, ← List.range_eq_range',
      ← List.range_eq_range'] at h
  rw [h1, h2]

/-- **Step lemma.** Taking a frame that was not passed over. -/
theorem Collected.receive (h : Collected xs c ks s) (hc : Increasing c n) (hk : s.next ≤ k)
    (hkn : k < n) :
    Collected xs c (ks ++ [k]) (receive (fun j => frame xs (c j) (c (j + 1))) s k) := by
  have hkeeps := h.keepsBefore k
  have halive := h.alive_iff hc hk hkn
  have hp := hc.block_le hk hkn.le
  have hold : (List.range (c s.next).block).filter (Whole c (k + 1) (ks ++ [k])) =
      (List.range (c s.next).block).filter (Whole c s.next ks) := by
    refine List.filter_congr fun i hi => ?_
    rw [decide_eq_decide]
    exact whole_old hc hk hkn (List.mem_range.mp hi)
  have hgap : (List.range' (c s.next).block ((c k).block - (c s.next).block)).filter
      (Whole c (k + 1) (ks ++ [k])) = [] := by
    refine List.filter_eq_nil_iff.mpr fun i hi => ?_
    rw [List.mem_range'_1] at hi
    obtain ⟨j, h1, h2, h3⟩ := exists_carrier hi.1 hk (by omega)
    rw [decide_eq_true_eq]
    exact h.not_whole_gap h1 h2 h3
  have hout : (join (keptFor s k) (frame xs (c k) (c (k + 1)))).2 =
      ((List.range' (c k).block ((c (k + 1)).block - (c k).block)).filter
        (Whole c (k + 1) (ks ++ [k]))).map (blockAt xs) := by
    rcases hc k hkn with hlt | ⟨heq, hoffset⟩
    · obtain ⟨_, h2, h3⟩ := join_of_lt hkeeps hlt
      obtain ⟨d, hd⟩ : ∃ d, (c (k + 1)).block - (c k).block = d + 1 :=
        ⟨(c (k + 1)).block - (c k).block - 1, by omega⟩
      have hinside : (List.range' ((c k).block + 1) d).filter (Whole c (k + 1) (ks ++ [k])) =
          List.range' ((c k).block + 1) d := by
        refine List.filter_eq_self.mpr fun i hi => ?_
        rw [List.mem_range'_1] at hi
        rw [decide_eq_true_eq]
        exact whole_of_before hc hkn (.inl (by omega))
      rw [hd] at h2 h3 ⊢
      rw [List.range'_succ, List.filter_cons, hinside]
      by_cases hw : Whole c (k + 1) (ks ++ [k]) (c k).block
      · rw [h2 (halive.mpr hw), if_pos (decide_eq_true hw), List.range'_succ]
      · rw [h3 (mt halive.mp hw), if_neg (by rw [decide_eq_true_eq]; exact hw), Nat.add_sub_cancel]
    · rw [(join_of_eq hkeeps heq hoffset).1, heq, Nat.sub_self]
      rfl
  change Collected xs c (ks ++ [k])
    ⟨k + 1, (join (keptFor s k) (frame xs (c k) (c (k + 1)))).1,
      s.delivered ++ (join (keptFor s k) (frame xs (c k) (c (k + 1)))).2⟩
  refine ⟨fun j hj => ?_, ?_, ?_⟩
  · obtain hj | hj := List.mem_append.mp hj
    · exact lt_of_lt_of_le (h.lt j hj) (by dsimp only; omega)
    · rw [List.mem_singleton.mp hj]
      exact Nat.lt_succ_self k
  · dsimp only
    rcases hc k hkn with hlt | ⟨heq, hoffset⟩
    · have hw : Whole c (k + 1) (ks ++ [k]) (c (k + 1)).block :=
        whole_of_before hc hkn (.inl hlt)
      rw [(join_of_lt hkeeps hlt).1]
      by_cases h0 : (c (k + 1)).offset = 0
      · rw [if_pos h0, if_neg (by simp [h0])]
      · rw [if_neg h0, if_pos ⟨h0, hw⟩]
    · obtain ⟨_, h2, h3⟩ := join_of_eq hkeeps heq hoffset
      rw [heq] at halive
      by_cases hw : Whole c (k + 1) (ks ++ [k]) (c (k + 1)).block
      · rw [h2 (halive.mpr hw), if_pos ⟨by omega, hw⟩]
      · rw [h3 (mt halive.mp hw), if_neg (mt And.right hw)]
  · dsimp only
    rw [range_split hp (hc.block_le (Nat.le_add_right k 1) (by omega)), List.filter_append,
      List.filter_append, hold, hgap, List.nil_append, List.map_append, ← h.delivered, ← hout]

/-- **Run lemma.** Taking frames in increasing order. -/
theorem Collected.run (hc : Increasing c n) : ∀ {l ks : List ℕ} {s : Collector β},
    Collected xs c ks s → l.Pairwise (· < ·) → (∀ k ∈ l, s.next ≤ k ∧ k < n) →
    Collected xs c (ks ++ l) (l.foldl (Cuts.receive fun j => frame xs (c j) (c (j + 1))) s)
  | [], ks, s, h, _, _ => by
      rw [List.append_nil]
      exact h
  | k :: l, ks, s, h, hl, hmem => by
      obtain ⟨hk, hl⟩ := List.pairwise_cons.mp hl
      obtain ⟨h1, h2⟩ := hmem k List.mem_cons_self
      have hnext := h.receive hc h1 h2
      rw [List.foldl_cons, List.append_cons]
      exact Collected.run hc hnext hl fun j hj =>
        ⟨hk j hj, (hmem j (List.mem_cons_of_mem k hj)).2⟩

theorem Collected.mono {c' : ℕ → Cut} {ys : List (List β)} (h : Collected xs c ks s)
    (hw : (c s.next).Within xs) (hc : ∀ k ≤ s.next, c' k = c k) :
    Collected (xs ++ ys) c' ks s := by
  have hwhole : ∀ i, Whole c' s.next ks i ↔ Whole c s.next ks i := by
    intro i
    refine forall₂_congr fun k hk => ?_
    rw [hc k hk.le, hc (k + 1) hk]
  refine ⟨h.lt, ?_, ?_⟩
  · rw [h.kept, hc s.next le_rfl]
    simp only [hwhole]
    by_cases h0 : (c s.next).offset = 0
    · rw [if_neg (fun h => h.1 h0), if_neg (fun h => h.1 h0)]
    · rw [blockAt_append (i := (c s.next).block) (by unfold Cut.Within at hw; omega)]
  · rw [h.delivered, hc s.next le_rfl]
    simp only [hwhole]
    refine List.map_congr_left fun i hi => ?_
    have hlt := List.mem_range.mp (List.mem_of_mem_filter hi)
    rw [blockAt_append (by unfold Cut.Within at hw; omega)]

theorem map_blockAt_range (xs : List (List β)) :
    (List.range xs.length).map (blockAt xs) = xs := by
  refine List.ext_getElem (by simp) fun i h1 h2 => ?_
  rw [List.getElem_map, List.getElem_range, blockAt_of_lt h2]

theorem Collected.sublist (h : Collected xs c ks s) (hw : (c s.next).Within xs) :
    s.delivered.Sublist xs := by
  have hle : (c s.next).block ≤ xs.length := by
    unfold Cut.Within at hw
    omega
  have hsub := (List.filter_sublist (p := fun i => decide (Whole c s.next ks i))).trans
    (List.range_sublist.mpr hle) |>.map (blockAt xs)
  rwa [map_blockAt_range, ← h.delivered] at hsub

theorem Collected.delivered_of_all (h : Collected xs c ks s) (hw : (c s.next).Within xs)
    (hall : ∀ k < s.next, k ∈ ks) : s.delivered = xs.take (c s.next).block := by
  have hle : (c s.next).block ≤ xs.length := by
    unfold Cut.Within at hw
    omega
  have hwhole : ∀ i, Whole c s.next ks i := fun i k hk _ => hall k hk
  rw [h.delivered, List.filter_eq_self.mpr fun i _ => decide_eq_true (hwhole i)]
  have htake := congrArg (List.take (c s.next).block) (map_blockAt_range xs)
  rwa [← List.map_take, List.take_range, min_eq_left hle] at htake

end Taken

end Cuts
