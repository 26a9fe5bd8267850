import Mathlib.Data.Finset.Insert
import Rbis.Rlc.UmReassembly

/-! # The reordering window

The state variables of the receiving side count PDUs modulo 1024.  As long as an arriving PDU is
less than 512 before VR(UH) and less than 512 behind VR(UR), they stand for numbers without a bound:
every PDU below VR(UR) was reassembled, in increasing order, or given up, every PDU received from
there on is in the reception buffer, and t-Reordering runs exactly if there is a gap
(`WindowInv.doReceivePdu`, `WindowInv.expireReorderingTimer`). -/

namespace Rbis

open Cuts SequenceNumber10

namespace UmReceiver

/-! ### The reception buffer -/

/-- The reception buffer holds the PDUs with a number in `B`. -/
def Holds (pdu : ℕ → List UInt8) (buffer : Cxx.OrderedMap ℕ (List UInt8)) (B : ℕ → Prop) : Prop :=
  ∀ e, e ∈ buffer.entries ↔ ∃ k, B k ∧ e = (k % 1024, pdu k)

section Holds

variable {pdu : ℕ → List UInt8} {buffer : Cxx.OrderedMap ℕ (List UInt8)} {B C : ℕ → Prop} {k : ℕ}

theorem Holds.congr (h : Holds pdu buffer B) (hBC : ∀ k, B k ↔ C k) : Holds pdu buffer C := by
  intro e
  rw [h e]
  simp only [hBC]

theorem Holds.contains_iff (h : Holds pdu buffer B) {sn : ℕ} :
    buffer.contains sn = true ↔ ∃ k, B k ∧ k % 1024 = sn := by
  rw [Cxx.OrderedMap.contains_iff]
  constructor
  · rintro ⟨v, hv⟩
    obtain ⟨k, hk, heq⟩ := (h _).mp hv
    exact ⟨k, hk, (Prod.mk.inj heq).1.symm⟩
  · rintro ⟨k, hk, rfl⟩
    exact ⟨pdu k, (h _).mpr ⟨k, hk, rfl⟩⟩

theorem Holds.contains_iff_of_spread (h : Holds pdu buffer B)
    (hk : ∀ j, B j → j % 1024 = k % 1024 → j = k) :
    buffer.contains (k % 1024) = true ↔ B k := by
  rw [h.contains_iff]
  constructor
  · rintro ⟨j, hj, hmod⟩
    exact hk j hj hmod ▸ hj
  · exact fun hB => ⟨k, hB, rfl⟩

theorem Holds.find_of_mem (h : Holds pdu buffer B)
    (hk : ∀ j, B j → j % 1024 = k % 1024 → j = k) (hB : B k) :
    buffer.find (k % 1024) = some (pdu k) := by
  refine Cxx.OrderedMap.find_eq_some (fun w hw => ?_) ((h _).mpr ⟨k, hB, rfl⟩)
  obtain ⟨j, hj, heq⟩ := (h _).mp hw
  obtain ⟨h1, rfl⟩ := Prod.mk.inj heq
  rw [hk j hj h1.symm]

theorem Holds.find_of_not_mem (h : Holds pdu buffer B)
    (hk : ∀ j, B j → j % 1024 = k % 1024 → j = k) (hB : ¬ B k) :
    buffer.find (k % 1024) = none := by
  refine Cxx.OrderedMap.find_eq_none fun v hv => ?_
  obtain ⟨j, hj, heq⟩ := (h _).mp hv
  exact hB (hk j hj (Prod.mk.inj heq).1.symm ▸ hj)

theorem Holds.insert (h : Holds pdu buffer B) (hk : ∀ j, B j → j % 1024 = k % 1024 → j = k) :
    Holds pdu (buffer.insert (k % 1024) (pdu k)) fun j => B j ∨ j = k := by
  intro e
  rw [Cxx.OrderedMap.mem_insert, h e]
  constructor
  · rintro (rfl | ⟨⟨j, hj, rfl⟩, -⟩)
    · exact ⟨k, .inr rfl, rfl⟩
    · exact ⟨j, .inl hj, rfl⟩
  · rintro ⟨j, hj | rfl, rfl⟩
    · by_cases hmod : j % 1024 = k % 1024
      · rw [hk j hj hmod]
        exact .inl rfl
      · exact .inr ⟨⟨j, hj, rfl⟩, hmod⟩
    · exact .inl rfl

theorem Holds.erase (h : Holds pdu buffer B) (hk : ∀ j, B j → j % 1024 = k % 1024 → j = k) :
    Holds pdu (buffer.erase (k % 1024)) fun j => B j ∧ j ≠ k := by
  intro e
  rw [Cxx.OrderedMap.mem_erase, h e]
  constructor
  · rintro ⟨⟨j, hj, rfl⟩, hne⟩
    exact ⟨j, ⟨hj, fun heq => hne (heq ▸ rfl)⟩, rfl⟩
  · rintro ⟨j, ⟨hj, hne⟩, rfl⟩
    exact ⟨⟨j, hj, rfl⟩, fun hmod => hne (hk j hj hmod)⟩

end Holds

/-! ### The loops -/

section Loops

variable {buffer : Cxx.OrderedMap ℕ (List UInt8)}

theorem firstMissing_spec (hkeys : ∀ x, buffer.contains x = true → x < 1024) :
    ∀ (rounds start : ℕ), 1024 ≤ start + rounds →
      ∃ w, firstMissing buffer (rounds + 1) start = .ok w ∧ start ≤ w ∧
        ∀ x, start ≤ x → x < w → buffer.contains x = true := by
  intro rounds
  induction rounds with
  | zero =>
      intro start hstart
      have hnot : ¬ buffer.contains start = true := fun h => by
        have := hkeys start h
        omega
      exact ⟨start, by rw [firstMissing, if_neg hnot], le_rfl, fun x h1 h2 => by omega⟩
  | succ rounds ih =>
      intro start hstart
      rw [firstMissing]
      split
      · next h =>
          obtain ⟨w, h1, h2, h3⟩ := ih (start + 1) (by omega)
          refine ⟨w, h1, by omega, fun x hx hxw => ?_⟩
          obtain rfl | hlt := eq_or_lt_of_le hx
          · exact h
          · exact h3 x hlt hxw
      · exact ⟨start, rfl, le_rfl, fun x h1 h2 => by omega⟩

theorem firstMissingSn_spec {d : ℕ} : ∀ (rounds u : ℕ) {sn : SequenceNumber10}, d ≤ rounds →
    sn.value = u % 1024 → buffer.contains ((u + d) % 1024) = false →
    ∃ sn' m, firstMissingSn buffer (rounds + 1) sn = .ok sn' ∧ m ≤ d ∧
      sn'.value = (u + m) % 1024 ∧ sn'.modulusBase = sn.modulusBase ∧
      ∀ i < m, buffer.contains ((u + i) % 1024) = true := by
  induction d with
  | zero =>
      intro rounds u sn _ hsn hfree
      refine ⟨sn, 0, ?_, le_rfl, hsn, rfl, fun i hi => absurd hi (Nat.not_lt_zero i)⟩
      rw [firstMissingSn, hsn]
      rw [Nat.add_zero] at hfree
      rw [hfree]
      rfl
  | succ d ih =>
      intro rounds u sn hd hsn hfree
      rw [firstMissingSn]
      split
      · next h =>
          obtain ⟨rounds, rfl⟩ : ∃ r, rounds = r + 1 := ⟨rounds - 1, by omega⟩
          obtain ⟨sn', m, h1, h2, h3, h4, h5⟩ := ih rounds (u + 1) (by omega)
            (increment_value hsn) (by rwa [show u + 1 + d = u + (d + 1) by omega])
          refine ⟨sn', m + 1, h1, by omega, ?_, h4, fun i hi => ?_⟩
          · rw [h3, show u + 1 + m = u + (m + 1) by omega]
          · cases i with
            | zero =>
                rw [Nat.add_zero, ← hsn]
                exact h
            | succ i =>
                rw [show u + (i + 1) = u + 1 + i by omega]
                exact h5 i (by omega)
      · exact ⟨sn, 0, rfl, Nat.zero_le _, hsn, rfl, fun i hi => absurd hi (Nat.not_lt_zero i)⟩

end Loops

/-- What a loop over PDUs in increasing order leaves: the PDUs `ks` are reassembled, the ones below
`b` are no longer in the reception buffer. -/
structure Passed (xs : List (List UInt8)) (c : ℕ → Cut) (pdu : ℕ → List UInt8) (B : ℕ → Prop)
    (ks : List ℕ) (a b e : ℕ) (s t : UmReceiver) : Prop where
  reassembled : ∃ ks', Reassembled xs c ks' e t ∧ ∀ k, k ∈ ks' ↔ k ∈ ks ∨ B k ∧ a ≤ k ∧ k < b
  holds : Holds pdu t.rxBuffer fun k => B k ∧ b ≤ k
  same : SameVariables s t

section Interval

variable {xs : List (List UInt8)} {c : ℕ → Cut} {n : ℕ} {pdu : ℕ → List UInt8} {B : ℕ → Prop}

theorem SameVariables.trans {s t u : UmReceiver} (h : SameVariables s t) (h' : SameVariables t u) :
    SameVariables s u :=
  ⟨h'.vrUr.trans h.vrUr, h'.vrUx.trans h.vrUx, h'.vrUh.trans h.vrUh,
    h'.timerPending.trans h.timerPending, h'.outOfOrderDelivery.trans h.outOfOrderDelivery⟩

/-- `ReassembleSnInterval` reassembles the PDUs of the interval that are in the reception buffer, in
increasing order. -/
theorem reassembleSnLoop_spec (hsent : Sent xs c n pdu) {h b : ℕ} {high : SequenceNumber10}
    (hhigh : high.Names h b) (hb : Near h b) (hbn : b ≤ n) :
    ∀ (rounds : ℕ) {a e : ℕ} {B : ℕ → Prop} {ks : List ℕ} {sn : SequenceNumber10} {s : UmReceiver},
      a ≤ b → b - a ≤ rounds → sn.Names h a → Near h a → b ≤ e + 1024 → e ≤ a →
      Reassembled xs c ks e s → Holds pdu s.rxBuffer B → (∀ k, B k → a ≤ k ∧ k < h + 512) →
      ∃ t e', s.reassembleSnLoop high (rounds + 1) sn = .ok t ∧
        Passed xs c pdu B ks a b e' s t ∧ e' ≤ b ∧ (a = b → e' = e) ∧
        (a < b → B (b - 1) → e' = b) := by
  intro rounds
  induction rounds with
  | zero =>
      intro a e B ks sn s hab hrounds hsn ha _ hea hre hholds hB
      obtain rfl : a = b := by omega
      refine ⟨s, e, ?_, ⟨⟨ks, hre, fun k => ?_⟩, hholds.congr fun k => ?_, ⟨rfl, rfl, rfl, rfl, rfl⟩⟩,
        hea, fun _ => rfl, fun h => absurd h (lt_irrefl _)⟩
      · rw [reassembleSnLoop, hsn.lt hhigh ha hb, decide_eq_false (lt_irrefl a)]
        rfl
      · exact ⟨.inl, fun h => h.resolve_right (by omega)⟩
      · exact ⟨fun hk => ⟨hk, (hB k hk).1⟩, And.left⟩
  | succ rounds ih =>
      intro a e B ks sn s hab hrounds hsn ha hbe hea hre hholds hB
      rw [reassembleSnLoop, hsn.lt hhigh ha hb, Fallible.ok_bind]
      obtain rfl | hlt := eq_or_lt_of_le hab
      · refine ⟨s, e, ?_, ⟨⟨ks, hre, fun k => ?_⟩, hholds.congr fun k => ?_,
          ⟨rfl, rfl, rfl, rfl, rfl⟩⟩, hea, fun _ => rfl, fun h => absurd h (lt_irrefl _)⟩
        · rw [decide_eq_false (lt_irrefl a)]
          rfl
        · exact ⟨.inl, fun h => h.resolve_right (by omega)⟩
        · exact ⟨fun hk => ⟨hk, (hB k hk).1⟩, And.left⟩
      have hinj : ∀ j, B j → j % 1024 = a % 1024 → j = a := by
        intro j hj hmod
        have hj' := hB j hj
        unfold Near at ha
        omega
      have hsn' : sn.increment.Names h (a + 1) := ⟨increment_value hsn.value, hsn.modulusBase⟩
      have ha' : Near h (a + 1) := by
        unfold Near at *
        omega
      rw [if_pos (decide_eq_true hlt), hsn.value]
      by_cases hBa : B a
      · obtain ⟨t, h1, h2, h3, h4⟩ := hre.reassembleAndDeliver hsent hea (by omega) (by omega)
        rw [hholds.find_of_mem hinj hBa]
        simp only [h1, Fallible.ok_bind, Fallible.pure_eq]
        have hholds' : Holds pdu { t with rxBuffer := t.rxBuffer.erase (a % 1024) }.rxBuffer
            fun j => B j ∧ j ≠ a := by
          dsimp only
          rw [h4]
          exact hholds.erase hinj
        have hre' : Reassembled xs c (ks ++ [a]) (a + 1)
            { t with rxBuffer := t.rxBuffer.erase (a % 1024) } :=
          ⟨⟨h2.idle.sdusBuffer, h2.idle.keepS0⟩, h2.expected, h2.collected⟩
        obtain ⟨u, e', k1, ⟨⟨ks', k2, k3⟩, k4, k5⟩, k6, k7, k8⟩ := ih (by omega) (by omega) hsn' ha'
          (by omega) le_rfl hre' hholds' fun k ⟨hk, hne⟩ => by
            have := hB k hk
            omega
        refine ⟨u, e', k1, ⟨⟨ks', k2, fun k => ?_⟩, k4.congr fun k => ?_, ?_⟩, k6, fun h => by omega,
          fun _ hlast => ?_⟩
        · rw [k3, List.mem_append, List.mem_singleton, or_assoc]
          refine or_congr_right ⟨?_, fun ⟨hk, h1, h2⟩ => ?_⟩
          · rintro (rfl | ⟨⟨hk, -⟩, h1, h2⟩)
            · exact ⟨hBa, le_rfl, hlt⟩
            · exact ⟨hk, by omega, h2⟩
          · obtain rfl | h1 := eq_or_lt_of_le h1
            · exact .inl rfl
            · exact .inr ⟨⟨hk, ne_of_gt h1⟩, h1, h2⟩
        · exact ⟨fun ⟨⟨hk, _⟩, h1⟩ => ⟨hk, h1⟩, fun ⟨hk, h1⟩ => ⟨⟨hk, by omega⟩, h1⟩⟩
        · exact h3.trans ⟨k5.vrUr, k5.vrUx, k5.vrUh, k5.timerPending, k5.outOfOrderDelivery⟩
        · obtain heq | hlt' := eq_or_lt_of_le (show a + 1 ≤ b from hlt)
          · rw [k7 heq, heq]
          · exact k8 hlt' ⟨hlast, by omega⟩
      · rw [hholds.find_of_not_mem hinj hBa]
        simp only [Fallible.ok_bind, Fallible.pure_eq]
        obtain ⟨u, e', k1, ⟨⟨ks', k2, k3⟩, k4, k5⟩, k6, k7, k8⟩ := ih (by omega) (by omega) hsn' ha'
          hbe (by omega) hre hholds fun k hk => by
            have h1 := hB k hk
            have h2 : k ≠ a := fun h => hBa (h ▸ hk)
            omega
        refine ⟨u, e', k1, ⟨⟨ks', k2, fun k => ?_⟩, k4, k5⟩, k6, fun h => by omega,
          fun _ hlast => ?_⟩
        · rw [k3]
          refine or_congr_right ⟨fun ⟨hk, h1, h2⟩ => ⟨hk, by omega, h2⟩, fun ⟨hk, h1, h2⟩ => ?_⟩
          have hne : a ≠ k := fun h => hBa (h ▸ hk)
          exact ⟨hk, by omega, h2⟩
        · obtain heq | hlt' := eq_or_lt_of_le (show a + 1 ≤ b from hlt)
          · rw [← heq, Nat.add_sub_cancel] at hlast
            exact absurd hlast hBa
          · exact k8 hlt' hlast

end Interval

/-! ### The window -/

section Window

variable {s : UmReceiver} {h x : ℕ}

theorem names_vrUh (hh : s.vrUh.value = h % 1024) :
    (s.vrUh.setModulusBase (s.vrUh.sub windowSize)).Names h h :=
  ⟨hh, sub_value hh⟩

theorem names_setModulusBase {sn : SequenceNumber10} (hh : s.vrUh.value = h % 1024)
    (hsn : sn.value = x % 1024) : (sn.setModulusBase (s.vrUh.sub windowSize)).Names h x :=
  ⟨hsn, sub_value hh⟩

theorem near_self (h : ℕ) : Near h h := ⟨by omega, by omega⟩

theorem window_le {sn t : SequenceNumber10} (hsn : sn.Names h h) (ht : t.Names h x) :
    (sn.sub windowSize).le t = .ok true :=
  le_of_base (sub_value hsn.value) hsn.modulusBase ht

theorem isInsideReorderingWindow_eq {sn : SequenceNumber10} (hh : s.vrUh.value = h % 1024)
    (hsn : sn.value = x % 1024) (hx : Near h x) :
    s.isInsideReorderingWindow sn =
      .ok ({ s with vrUh := s.vrUh.setModulusBase (s.vrUh.sub windowSize) }, decide (x < h)) := by
  rw [isInsideReorderingWindow]
  simp only [window_le (names_vrUh hh) (names_setModulusBase hh hsn), Fallible.ok_bind, if_true,
    (names_setModulusBase hh hsn).lt (names_vrUh hh) hx (near_self h), Fallible.pure_eq]

theorem reassembleOutsideWindow_eq (hh : s.vrUh.value = h % 1024)
    (hinside : ∀ e ∈ s.rxBuffer.entries, ∃ k, e.1 = k % 1024 ∧ h ≤ k + 512 ∧ k < h) :
    ∃ v, v.value = h % 1024 ∧ s.reassembleOutsideWindow = .ok { s with vrUh := v } := by
  rw [reassembleOutsideWindow]
  cases hentries : s.rxBuffer.entries with
  | nil => exact ⟨s.vrUh, hh, rfl⟩
  | cons e rest =>
      rw [hentries] at hinside
      obtain ⟨k, hk, h1, h2⟩ := hinside e List.mem_cons_self
      have hsn : (SequenceNumber10.ofValue e.1).value = k % 1024 := by
        rw [hk]
        exact Nat.mod_mod k 1024
      refine ⟨s.vrUh.setModulusBase (s.vrUh.sub windowSize), hh, ?_⟩
      rw [reassembleOutsideLoop, isInsideReorderingWindow_eq hh hsn ⟨h1, by omega⟩]
      simp only [decide_eq_true h2, Fallible.ok_bind, if_true, Fallible.pure_eq]

/-- A PDU inside the window, or one that moves it without passing VR(UR). -/
theorem moveWindow_eq {r k : ℕ} {sn : SequenceNumber10} (hh : s.vrUh.value = h % 1024)
    (hr : s.vrUr.value = r % 1024) (hsn : sn.Names h k) (hk : Near h k) (hrh : r ≤ h)
    (hhr : max h (k + 1) ≤ r + 512)
    (hbuffer : ∀ e ∈ s.rxBuffer.entries, ∃ j, e.1 = j % 1024 ∧ r ≤ j ∧ j < max h (k + 1)) :
    ∃ v, v.value = max h (k + 1) % 1024 ∧ s.moveWindow sn = .ok { s with vrUh := v } := by
  rw [moveWindow, isInsideReorderingWindow_eq hh hsn.value hk]
  simp only [Fallible.ok_bind, decide_eq_true_eq]
  by_cases hkh : k < h
  · refine ⟨s.vrUh.setModulusBase (s.vrUh.sub windowSize), ?_, by rw [if_pos hkh]; rfl⟩
    rw [max_eq_left hkh]
    exact hh
  · rw [if_neg hkh]
    rw [max_eq_right (by omega)] at hhr hbuffer ⊢
    obtain ⟨v, hv, hout⟩ := reassembleOutsideWindow_eq (h := k + 1) (s := { s with
        vrUh := sn.add 1 }) (add_value hsn.value) fun e he => by
      obtain ⟨j, h1, h2, h3⟩ := hbuffer e he
      exact ⟨j, h1, by omega, h3⟩
    refine ⟨v.setModulusBase (v.sub windowSize), hv, ?_⟩
    rw [hout, Fallible.ok_bind]
    dsimp only
    rw [isInsideReorderingWindow_eq (x := r) (h := k + 1) (s := { s with vrUh := v }) hv hr
      ⟨by omega, by unfold Near at hk; omega⟩]
    simp only [decide_eq_true (show r < k + 1 by omega), Fallible.ok_bind, if_true,
      Fallible.pure_eq]

end Window

/-! ### VR(UR) and the timer -/

section Advance

variable {xs : List (List UInt8)} {c : ℕ → Cut} {n : ℕ} {pdu : ℕ → List UInt8} {B : ℕ → Prop}

/-- Every PDU of the reception buffer below `r` is reassembled. -/
structure Settled (xs : List (List UInt8)) (c : ℕ → Cut) (pdu : ℕ → List UInt8) (taken : Finset ℕ)
    (r : ℕ) (s : UmReceiver) : Prop where
  vrUr : s.vrUr.value = r % 1024
  holds : Holds pdu s.rxBuffer fun k => k ∈ taken ∧ r ≤ k
  reassembled : ∃ ks, Reassembled xs c ks r s ∧ ∀ k, k ∈ ks ↔ k ∈ taken ∧ k < r

theorem Settled.congr {taken : Finset ℕ} {r : ℕ} {s t : UmReceiver}
    (hs : Settled xs c pdu taken r s) (hv : t.vrUr.value = s.vrUr.value)
    (ht : t = { s with
      vrUr := t.vrUr
      vrUx := t.vrUx
      vrUh := t.vrUh
      timerPending := t.timerPending }) : Settled xs c pdu taken r t := by
  obtain ⟨ks, hre, hks⟩ := hs.reassembled
  rw [ht] at hv ⊢
  exact ⟨hv.trans hs.vrUr, hs.holds, ks,
    ⟨⟨hre.idle.sdusBuffer, hre.idle.keepS0⟩, hre.expected, hre.collected⟩, hks⟩

/-- The interval from VR(UR) to its new value, all of which is in the reception buffer at the
end. -/
theorem Settled.interval {taken : Finset ℕ} {r r' g h : ℕ} {s : UmReceiver} {high : SequenceNumber10}
    (hs : Settled xs c pdu taken r s) (hsent : Sent xs c n pdu) (hlt : ∀ k ∈ taken, k < h)
    (hh : h ≤ r + 512) (hg : h ≤ g + 512) (hn : h ≤ n) (hlow : s.vrUr.Names g r) (hr : Near g r)
    (hhigh : high.Names g r') (hr' : Near g r') (hrr' : r < r') (hr'h : r' ≤ h)
    (hlast : r' - 1 ∈ taken) (s' : UmReceiver) (hs' : s' = { s with
      vrUr := high
      timerPending := s'.timerPending }) :
    ∃ t, s'.reassembleSnInterval s.vrUr high = .ok t ∧ Settled xs c pdu taken r' t ∧
      SameVariables s' t := by
  obtain ⟨ks, hre, hks⟩ := hs.reassembled
  have hre' : Reassembled xs c ks r s' := by
    rw [hs']
    exact ⟨⟨hre.idle.sdusBuffer, hre.idle.keepS0⟩, hre.expected, hre.collected⟩
  have hholds : Holds pdu s'.rxBuffer fun k => k ∈ taken ∧ r ≤ k := by
    rw [hs']
    exact hs.holds
  obtain ⟨t, e, h1, ⟨⟨ks', h2, h3⟩, h4, h5⟩, -, -, h8⟩ := reassembleSnLoop_spec hsent hhigh hr'
    (hr'h.trans hn) 1024 hrr'.le (by omega) hlow hr (by omega) le_rfl hre' hholds
    fun k ⟨hk, hrk⟩ => by
      have := hlt k hk
      unfold Near at hr
      omega
  obtain rfl : e = r' := h8 hrr' ⟨hlast, by omega⟩
  refine ⟨t, h1, ⟨?_, h4.congr fun k => ?_, ks', h2, fun k => ?_⟩, h5⟩
  · rw [h5.vrUr, hs']
    exact hhigh.value
  · exact ⟨fun ⟨⟨hk, _⟩, hrk⟩ => ⟨hk, hrk⟩, fun ⟨hk, hrk⟩ => ⟨⟨hk, by omega⟩, hrk⟩⟩
  · rw [h3, hks]
    constructor
    · rintro (⟨hk, hkr⟩ | ⟨⟨hk, -⟩, -, hkr⟩)
      · exact ⟨hk, by omega⟩
      · exact ⟨hk, hkr⟩
    · rintro ⟨hk, hkr⟩
      by_cases hrk : r ≤ k
      · exact .inr ⟨⟨hk, hrk⟩, hrk, hkr⟩
      · exact .inl ⟨hk, by omega⟩

/-- `DoReceivePdu` moves VR(UR) behind the PDUs that follow it in the reception buffer. -/
theorem Settled.advance {taken : Finset ℕ} {r g h : ℕ} {s : UmReceiver}
    (hs : Settled xs c pdu taken r s) (hsent : Sent xs c n pdu) (hlt : ∀ k ∈ taken, k < h)
    (hh : h ≤ r + 512) (hg : h ≤ g + 512) (hn : h ≤ n) (hbase : s.vrUr.modulusBase = (g + 512) % 1024)
    (hr : Near g r) (hrh : r ≤ h) (hfits : r ∈ taken → h < g + 512) :
    ∃ t r', s.advance = .ok t ∧ Settled xs c pdu taken r' t ∧ r ≤ r' ∧ r' ≤ h ∧
      (r ∈ taken → r < r') ∧ SameVariables { s with vrUr := t.vrUr } t := by
  have hinj : ∀ {i : ℕ}, i < 1024 →
      (∃ k, (k ∈ taken ∧ r ≤ k) ∧ k % 1024 = (r + i) % 1024) → r + i ∈ taken := by
    rintro i hi ⟨k, ⟨hk, hrk⟩, hmod⟩
    have := hlt k hk
    rwa [show r + i = k by omega]
  by_cases hmem : r ∈ taken
  · have hcontains : s.rxBuffer.contains s.vrUr.value = true :=
      hs.holds.contains_iff.mpr ⟨r, ⟨hmem, le_rfl⟩, hs.vrUr.symm⟩
    obtain ⟨w, h1, h2, h3⟩ := firstMissing_spec (fun x hx => by
        obtain ⟨k, -, rfl⟩ := hs.holds.contains_iff.mp hx
        omega) 1024 (s.vrUr.value + 1) (by omega)
    have hv := hs.vrUr
    have hall : ∀ i, s.vrUr.value + i < w → r + i ∈ taken := by
      intro i hi
      cases i with
      | zero => exact hmem
      | succ i =>
          obtain ⟨k, hk, hmod⟩ := hs.holds.contains_iff.mp (h3 (s.vrUr.value + (i + 1))
            (by omega) hi)
          exact hinj (by omega) ⟨k, hk, by omega⟩
    have hlast : r + (w - s.vrUr.value) - 1 ∈ taken := by
      rw [show r + (w - s.vrUr.value) - 1 = r + (w - s.vrUr.value - 1) by omega]
      exact hall _ (by omega)
    have hr'h := hlt _ hlast
    have hfits' := hfits hmem
    have hhigh : (s.vrUr.assign w).Names g (r + (w - s.vrUr.value)) := by
      refine ⟨?_, hbase⟩
      show w % 1024 = _
      omega
    obtain ⟨t, k1, k2, k3⟩ := hs.interval hsent hlt hh hg hn ⟨hv, hbase⟩ hr hhigh
      (by unfold Near at *; omega) (by omega) (by omega) hlast
      { s with vrUr := s.vrUr.assign w } rfl
    refine ⟨t, _, ?_, k2, by omega, by omega, fun _ => by omega, ?_⟩
    · rw [UmReceiver.advance, if_pos hcontains, h1]
      exact k1
    · exact ⟨rfl, k3.vrUx, k3.vrUh, k3.timerPending, k3.outOfOrderDelivery⟩
  · have hcontains : ¬ s.rxBuffer.contains s.vrUr.value = true := by
      intro hc
      obtain ⟨k, hk, hmod⟩ := hs.holds.contains_iff.mp hc
      exact hmem (hinj (i := 0) (by omega) ⟨k, hk, by rw [hmod, hs.vrUr, Nat.add_zero]⟩)
    refine ⟨s, r, ?_, hs, le_rfl, hrh, fun h => absurd h hmem, ⟨rfl, rfl, rfl, rfl, rfl⟩⟩
    rw [UmReceiver.advance, if_neg hcontains]
    rfl

end Advance

/-- VR(UX) names the PDU after one that was received, above VR(UR), and the three state variables are
compared under one modulus base. -/
structure TimerInv (taken : Finset ℕ) (r h u : ℕ) (s : UmReceiver) : Prop where
  vrUr : s.vrUr.Names h r
  vrUx : s.vrUx.Names h u
  vrUh : s.vrUh.Names h h
  lt : r < u
  le : u ≤ h
  mem : u - 1 ∈ taken

section Timer

variable {s : UmReceiver} {taken : Finset ℕ} {r h u : ℕ}

/-- The timer as it should be: it runs exactly if there is a gap, and nothing else changed. -/
def TimerSet (taken : Finset ℕ) (r h : ℕ) (s t : UmReceiver) : Prop :=
  t.timerPending = decide (r < h) ∧ (r < h → ∃ u, TimerInv taken r h u t) ∧
    t = { s with timerPending := t.timerPending, vrUx := t.vrUx, vrUh := t.vrUh } ∧
    t.vrUh.value = h % 1024

theorem startTimer_eq (hp : s.timerPending = false) (hr : s.vrUr.Names h r)
    (hh : s.vrUh.Names h h) (hrh : r ≤ h) (hhr : h ≤ r + 512) (hlast : 0 < h → h - 1 ∈ taken) :
    ∃ t, s.startTimer = .ok t ∧ TimerSet taken r h s t ∧ (r < h → TimerInv taken r h h t) := by
  rw [startTimer, hh.gt hr (near_self h) ⟨hhr, by omega⟩, Fallible.ok_bind]
  by_cases hlt : r < h
  · rw [if_pos (decide_eq_true hlt)]
    have ht : TimerInv taken r h h { s with timerPending := true, vrUx := s.vrUh } :=
      ⟨hr, hh, hh, hlt, le_rfl, hlast (by omega)⟩
    exact ⟨_, rfl, ⟨(decide_eq_true hlt).symm, fun _ => ⟨h, ht⟩, rfl, hh.value⟩, fun _ => ht⟩
  · rw [if_neg (by rw [decide_eq_true_eq]; exact hlt)]
    exact ⟨_, rfl, ⟨by rw [hp, decide_eq_false hlt], fun h => absurd h hlt, rfl, hh.value⟩,
      fun h => absurd h hlt⟩

/-- The actions on t-Reordering after a reception. -/
theorem updateTimer_eq (hr : s.vrUr.Names h r) (hh : s.vrUh.Names h h) (hrh : r ≤ h)
    (hhr : h ≤ r + 512) (hlast : 0 < h → h - 1 ∈ taken)
    (hpending : s.timerPending = true →
      s.vrUx.Names h u ∧ u ≤ h ∧ h ≤ u + 512 ∧ u - 1 ∈ taken) :
    ∃ t, s.updateTimer = .ok t ∧ TimerSet taken r h s t := by
  rw [updateTimer]
  cases hp : s.timerPending with
  | false =>
      simp only [Bool.false_eq_true, if_false, Fallible.pure_eq, Fallible.ok_bind, hp]
      obtain ⟨t, h1, h2, -⟩ := startTimer_eq hp hr hh hrh hhr hlast
      exact ⟨t, h1, h2⟩
  | true =>
      obtain ⟨hu, huh, hhu, hmem⟩ := hpending hp
      have hnear : Near h u := ⟨hhu, by omega⟩
      simp only [if_true, hu.le hr hnear ⟨hhr, by omega⟩, Fallible.ok_bind, decide_eq_true_eq]
      by_cases hur : u ≤ r
      · simp only [if_pos hur, Fallible.pure_eq, Fallible.ok_bind, Bool.false_eq_true, if_false]
        obtain ⟨t, h1, ⟨h2, h3, h4, h5⟩, -⟩ := startTimer_eq (s := { s with timerPending := false })
          rfl hr hh hrh hhr hlast
        exact ⟨t, h1, h2, h3, h4, h5⟩
      · have hinside : (decide (u < h) || decide (s.vrUx.value = s.vrUh.value)) = true := by
          obtain hlt | rfl := lt_or_eq_of_le huh
          · rw [decide_eq_true hlt, Bool.true_or]
          · rw [decide_eq_true (hu.value.trans hh.value.symm), Bool.or_true]
        rw [if_neg hur, isInsideReorderingWindow_eq hh.value hu.value hnear]
        simp only [Fallible.ok_bind, Fallible.pure_eq, SequenceNumber10.setModulusBase, hinside,
          if_true]
        exact ⟨_, rfl, (decide_eq_true (by omega)).symm,
          fun _ => ⟨u, hr, hu, ⟨hh.value, sub_value hh.value⟩, by omega, huh, hmem⟩, rfl, hh.value⟩

end Timer

/-! ### The steps of the receiver -/

section Steps

variable {xs : List (List UInt8)} {c : ℕ → Cut} {n : ℕ} {pdu : ℕ → List UInt8}
  {taken : Finset ℕ} {r h k : ℕ} {s : UmReceiver}

/-- Between two events: the PDUs in `taken` were placed in the reception buffer, VR(UR) is `r` and
VR(UH) is `h`. -/
structure WindowInv (xs : List (List UInt8)) (c : ℕ → Cut) (n : ℕ) (pdu : ℕ → List UInt8)
    (taken : Finset ℕ) (r h : ℕ) (s : UmReceiver) : Prop where
  settled : Settled xs c pdu taken r s
  vrUh : s.vrUh.value = h % 1024
  le : r ≤ h
  le_add : h ≤ r + 512
  sent : h ≤ n
  lt : ∀ k ∈ taken, k < h
  last : 0 < h → h - 1 ∈ taken
  pending : s.timerPending = decide (r < h)
  timer : r < h → ∃ u, TimerInv taken r h u s
  inOrder : s.outOfOrderDelivery = false

theorem WindowInv.init (h0 : c 0 = ⟨0, 0⟩) : WindowInv xs c n pdu ∅ 0 0 {} where
  settled :=
    ⟨rfl, fun e => ⟨fun he => absurd he List.not_mem_nil, fun ⟨_, ⟨hk, _⟩, _⟩ => by simp at hk⟩,
      [], ⟨⟨rfl, fun h => by cases h⟩, rfl, Collected.init xs h0⟩, fun k => by simp⟩
  vrUh := rfl
  le := le_rfl
  le_add := Nat.zero_le _
  sent := Nat.zero_le _
  lt := fun k hk => by simp at hk
  last := fun h => absurd h (lt_irrefl 0)
  pending := rfl
  timer := fun h => absurd h (lt_irrefl 0)
  inOrder := rfl

/-- The state with the modulus bases that `DoReceivePdu` sets first. -/
def based (s : UmReceiver) : UmReceiver :=
  { s with
    vrUr := s.vrUr.setModulusBase (s.vrUh.sub windowSize)
    vrUh := s.vrUh.setModulusBase (s.vrUh.sub windowSize) }

theorem WindowInv.based (hw : WindowInv xs c n pdu taken r h s) :
    WindowInv xs c n pdu taken r h s.based where
  settled := hw.settled.congr rfl rfl
  vrUh := hw.vrUh
  le := hw.le
  le_add := hw.le_add
  sent := hw.sent
  lt := hw.lt
  last := hw.last
  pending := hw.pending
  timer := fun hlt => by
    obtain ⟨u, ht⟩ := hw.timer hlt
    exact ⟨u, names_setModulusBase hw.vrUh hw.settled.vrUr, ht.vrUx, names_vrUh hw.vrUh, ht.lt,
      ht.le, ht.mem⟩
  inOrder := hw.inOrder

/-- A PDU is discarded if it was passed over or is in the reception buffer already. -/
theorem WindowInv.isDuplicate (hw : WindowInv xs c n pdu taken r h s) (hnear : Near h k)
    (hr : k < r + 512) {sn : SequenceNumber10} (hsn : sn.Names h k) :
    ∃ dup, s.based.isDuplicate sn = .ok dup ∧
      (dup = true ↔ k < r ∨ r < k ∧ k < h ∧ k ∈ taken) := by
  have hur : s.based.vrUr.Names h r := names_setModulusBase hw.vrUh hw.settled.vrUr
  have huh : s.based.vrUh.Names h h := names_vrUh hw.vrUh
  have hrnear : Near h r := ⟨hw.le_add, by have := hw.le; omega⟩
  rw [UmReceiver.isDuplicate, hur.lt hsn hrnear hnear, hsn.lt huh hnear (near_self h),
    window_le huh hsn, hsn.lt hur hnear hrnear]
  simp only [Fallible.ok_bind, Fallible.pure_eq, decide_eq_true_eq]
  have hcontains : s.based.rxBuffer.contains sn.value = true ↔ k ∈ taken ∧ r ≤ k := by
    rw [hsn.value]
    refine hw.settled.holds.contains_iff_of_spread fun j ⟨hj, hrj⟩ hmod => ?_
    have h1 := hw.lt j hj
    have h2 := hw.le_add
    unfold Near at hnear
    omega
  by_cases h1 : r < k
  · rw [if_pos h1]
    by_cases h2 : k < h
    · rw [if_pos h2]
      by_cases h3 : k ∈ taken
      · rw [if_pos (hcontains.mpr ⟨h3, h1.le⟩)]
        exact ⟨true, rfl, iff_of_true rfl (.inr ⟨h1, h2, h3⟩)⟩
      · rw [if_neg (fun hc => h3 (hcontains.mp hc).1), if_pos trivial]
        refine ⟨_, rfl, ?_⟩
        rw [decide_eq_true_eq]
        exact ⟨.inl, fun h => h.elim id fun h => absurd h.2.2 h3⟩
    · rw [if_neg h2, if_neg Bool.false_ne_true, if_pos trivial]
      refine ⟨_, rfl, ?_⟩
      rw [decide_eq_true_eq]
      exact ⟨.inl, fun h => h.elim id fun h => absurd h.2.1 h2⟩
  · rw [if_neg h1, if_neg Bool.false_ne_true, if_pos trivial]
    refine ⟨_, rfl, ?_⟩
    rw [decide_eq_true_eq]
    exact ⟨.inl, fun h => h.elim id fun h => absurd h.1 h1⟩

/-- **Reception.** A PDU near the window is discarded, or placed in the reception buffer, after
which what follows VR(UR) is reassembled. -/
theorem WindowInv.doReceivePdu (hw : WindowInv xs c n pdu taken r h s) (hsent : Sent xs c n pdu)
    (hk : k < n) (hnear : Near h k) (hr : k < r + 512) :
    ∃ t r', s.doReceivePdu (pdu k) = .ok t ∧ r ≤ r' ∧ (k = r → r < r') ∧
      WindowInv xs c n pdu (if r ≤ k then insert k taken else taken) r' (max h (k + 1)) t := by
  have hsn : ((SequenceNumber10.ofValue (k % 1024)).setModulusBase (s.vrUh.sub windowSize)).Names
      h k := names_setModulusBase hw.vrUh (Nat.mod_mod k 1024)
  obtain ⟨dup, hdup, hdup_iff⟩ := hw.isDuplicate hnear hr hsn
  have hpeek := (hsent.encodes k hk).peek
  have hdo : s.doReceivePdu (pdu k) = (if dup then pure s.based else do
      let s ← { s.based with rxBuffer := s.rxBuffer.insert (k % 1024) (pdu k) }.moveWindow
        ((SequenceNumber10.ofValue (k % 1024)).setModulusBase (s.vrUh.sub windowSize))
      let s ← s.advance
      s.setModulusBases.updateTimer) := by
    rw [UmReceiver.doReceivePdu, hpeek, Fallible.ok_bind]
    simp only [frameHeader]
    change (s.based.isDuplicate _ >>= _) = _
    rw [hdup, Fallible.ok_bind]
    simp only [hw.inOrder, UmReceiver.based, Bool.false_eq_true, if_false, Fallible.pure_eq,
      Fallible.ok_bind, hsn.value]
  have hle := hw.le
  have hadd := hw.le_add
  by_cases hd : dup = true
  · refine ⟨s.based, r, by rw [hdo, if_pos hd]; rfl, le_rfl, fun hkr => ?_, ?_⟩
    · have := hdup_iff.mp hd
      omega
    · rcases hdup_iff.mp hd with hlt | ⟨h1, h2, h3⟩
      · rw [if_neg (by omega), max_eq_left (by omega)]
        exact hw.based
      · rw [if_pos (by omega), Finset.insert_eq_of_mem h3, max_eq_left (by omega)]
        exact hw.based
  · have hrk : r ≤ k := by
      by_contra hlt
      exact hd (hdup_iff.mpr (.inl (by omega)))
    rw [if_pos hrk]
    have hinj : ∀ j, j ∈ taken ∧ r ≤ j → j % 1024 = k % 1024 → j = k := by
      rintro j ⟨hj, hrj⟩ hmod
      have := hw.lt j hj
      omega
    have hlt : ∀ j ∈ insert k taken, j < max h (k + 1) := by
      intro j hj
      obtain rfl | hj := Finset.mem_insert.mp hj
      · exact lt_max_of_lt_right (Nat.lt_succ_self j)
      · exact lt_max_of_lt_left (hw.lt j hj)
    have hmax : max h (k + 1) ≤ r + 512 := max_le hadd hr
    have hplaced : Settled xs c pdu (insert k taken) r
        { s.based with rxBuffer := s.rxBuffer.insert (k % 1024) (pdu k) } := by
      obtain ⟨ks, hre, hks⟩ := hw.settled.reassembled
      refine ⟨hw.settled.vrUr, (hw.settled.holds.insert hinj).congr fun j => ?_, ks,
        ⟨⟨hre.idle.sdusBuffer, hre.idle.keepS0⟩, hre.expected, hre.collected⟩, fun j => ?_⟩
      · rw [Finset.mem_insert]
        constructor
        · rintro (⟨hj, hrj⟩ | rfl)
          · exact ⟨.inr hj, hrj⟩
          · exact ⟨.inl rfl, hrk⟩
        · rintro ⟨rfl | hj, hrj⟩
          · exact .inr rfl
          · exact .inl ⟨hj, hrj⟩
      · rw [hks, Finset.mem_insert]
        exact and_congr_left fun hjr => ⟨.inr, fun h => h.resolve_left (by omega)⟩
    obtain ⟨v, hv, hmove⟩ := moveWindow_eq (s := { s.based with
        rxBuffer := s.rxBuffer.insert (k % 1024) (pdu k) }) hw.vrUh hw.settled.vrUr hsn hnear hle
      hmax fun e he => by
        obtain ⟨j, ⟨hj, hrj⟩, rfl⟩ := (hplaced.holds e).mp he
        exact ⟨j, rfl, hrj, hlt j hj⟩
    obtain ⟨t, r', hadvance, hsettled, hrr', hr'h, hstep, hsame⟩ := Settled.advance (g := h)
      (h := max h (k + 1)) (s := { s.based with
        rxBuffer := s.rxBuffer.insert (k % 1024) (pdu k)
        vrUh := v }) (hplaced.congr rfl rfl) hsent hlt hmax (max_le (by omega) hnear.2)
      (max_le hw.sent hk) (sub_value hw.vrUh) ⟨hadd, by omega⟩ (hle.trans (le_max_left _ _))
      fun hmem => by
        obtain rfl | hmem := Finset.mem_insert.mp hmem
        · omega
        · have := hw.lt r hmem
          omega
    have hvrUh : t.vrUh.value = max h (k + 1) % 1024 := by
      rw [hsame.vrUh]
      exact hv
    have hlast : 0 < max h (k + 1) → max h (k + 1) - 1 ∈ insert k taken := by
      intro hpos
      obtain h1 | h1 := le_total h (k + 1)
      · rw [max_eq_right h1]
        exact Finset.mem_insert_self k taken
      · rw [max_eq_left h1]
        exact Finset.mem_insert_of_mem (hw.last (by omega))
    obtain ⟨u, hu⟩ : ∃ u, t.timerPending = true →
        t.vrUx.value = u % 1024 ∧ u ≤ h ∧ r < u ∧ u - 1 ∈ taken := by
      have hpending : t.timerPending = s.timerPending := hsame.timerPending
      have hvrUx : t.vrUx = s.vrUx := hsame.vrUx
      by_cases hrh : r < h
      · obtain ⟨u, hu⟩ := hw.timer hrh
        exact ⟨u, fun _ => ⟨hvrUx ▸ hu.vrUx.value, hu.le, hu.lt, hu.mem⟩⟩
      · refine ⟨0, fun hp => ?_⟩
        rw [hpending, hw.pending, decide_eq_true_eq] at hp
        exact absurd hp hrh
    obtain ⟨t', htimer, hset1, hset2, hset3, hset4⟩ := updateTimer_eq (s := t.setModulusBases)
      (u := u) (names_setModulusBase hvrUh hsettled.vrUr) (names_vrUh hvrUh) hr'h (by omega) hlast
      fun hp => by
        obtain ⟨h1, h2, h3, h4⟩ := hu hp
        exact ⟨names_setModulusBase hvrUh h1, h2.trans (le_max_left _ _), by omega,
          Finset.mem_insert_of_mem h4⟩
    refine ⟨t', r', ?_, hrr', fun hkr => hstep (hkr ▸ Finset.mem_insert_self k taken), ?_⟩
    · rw [hdo, if_neg hd, hmove, Fallible.ok_bind, hadvance, Fallible.ok_bind]
      exact htimer
    · refine
        { settled := (hsettled.congr (t := t.setModulusBases) rfl rfl).congr ?_ ?_
          vrUh := hset4
          le := hr'h
          le_add := by omega
          sent := max_le hw.sent hk
          lt := hlt
          last := hlast
          pending := hset1
          timer := hset2
          inOrder := ?_ }
      · rw [hset3]
      · rw [hset3]
      · rw [hset3]
        exact hsame.outOfOrderDelivery.trans hw.inOrder

/-- **Expiry of t-Reordering.** VR(UR) moves at least to VR(UX), and what is below is reassembled; if
there is another gap the timer runs for the PDUs up to VR(UH). -/
theorem WindowInv.expireReorderingTimer (hw : WindowInv xs c n pdu taken r h s)
    (hsent : Sent xs c n pdu) {u : ℕ} (ht : TimerInv taken r h u s) :
    ∃ t r', s.expireReorderingTimer = .ok t ∧ u ≤ r' ∧ WindowInv xs c n pdu taken r' h t ∧
      (r' < h → TimerInv taken r' h h t) := by
  have hadd := hw.le_add
  have hru := ht.lt
  have huh := ht.le
  have hfree : s.rxBuffer.contains ((u + (h - u)) % 1024) = false := by
    rw [Bool.eq_false_iff]
    intro hc
    obtain ⟨k, ⟨hk, hrk⟩, hmod⟩ := hw.settled.holds.contains_iff.mp hc
    have := hw.lt k hk
    omega
  obtain ⟨sn, m, h1, h2, h3, h4, h5⟩ := firstMissingSn_spec 1024 u (by omega)
    ht.vrUx.value hfree
  have hlast : u + m - 1 ∈ taken := by
    cases m with
    | zero => exact ht.mem
    | succ m =>
        obtain ⟨k, ⟨hk, hrk⟩, hmod⟩ := hw.settled.holds.contains_iff.mp (h5 m (by omega))
        have := hw.lt k hk
        rwa [show u + (m + 1) - 1 = k by omega]
  have hnames : sn.Names h (u + m) := ⟨h3, h4.trans ht.vrUx.modulusBase⟩
  obtain ⟨t, k1, k2, k3⟩ := hw.settled.interval hsent hw.lt hadd (Nat.le_add_right h 512) hw.sent
    ht.vrUr ⟨hadd, by omega⟩ hnames ⟨by omega, by omega⟩ (by omega) (by omega) hlast
    { s with timerPending := false, vrUr := sn } rfl
  obtain ⟨t', k4, ⟨k5, k6, k7, k8⟩, k9⟩ : ∃ t', t.startTimer = .ok t' ∧
      TimerSet taken (u + m) h t t' ∧ (u + m < h → TimerInv taken (u + m) h h t') :=
    startTimer_eq k3.timerPending (by rw [k3.vrUr]; exact hnames) (by rw [k3.vrUh]; exact ht.vrUh)
      (by omega) (by omega) hw.last
  refine ⟨t', u + m, ?_, by omega, ?_, k9⟩
  · rw [UmReceiver.expireReorderingTimer, h1, Fallible.ok_bind]
    dsimp only
    rw [k1, Fallible.ok_bind]
    exact k4
  · refine
      { settled := k2.congr (by rw [k7]) (by rw [k7])
        vrUh := k8
        le := by omega
        le_add := by omega
        sent := hw.sent
        lt := hw.lt
        last := hw.last
        pending := k5
        timer := k6
        inOrder := ?_ }
    rw [k7]
    exact k3.outOfOrderDelivery.trans hw.inOrder

end Steps

end UmReceiver

end Rbis
