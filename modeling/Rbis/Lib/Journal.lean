import Mathlib.Data.List.Range
import Mathlib.Tactic.Common

/-! # Journals of numbered entries

A journal is a list of entries.  Each has a key, a rank and a content.  It is `Sequential` if under
every key an entry of a rank above 0 comes right behind the entry of the rank before, with the same
content.  Then what precedes an entry of rank `n` under its key ends with its own beginning, of the
ranks `0, …, n - 1` (`Sequential.block`). -/

namespace Journal

variable {ε κ π : Type} [DecidableEq κ] (key : ε → κ) (rank : ε → ℕ) (content : ε → π)

/-- The entries with this key. -/
def history (log : List ε) (k : κ) : List ε := log.filter fun e => key e = k

/-- An entry is the first of its content, or the one behind `last`. -/
def Follows (last : Option ε) (e : ε) : Prop :=
  rank e = 0 ∨ ∃ a, last = some a ∧ rank e = rank a + 1 ∧ content e = content a

/-- Every entry follows the one before it. -/
def Steps (h : List ε) : Prop :=
  ∀ pre e post, h = pre ++ e :: post → Follows rank content pre.getLast? e

def Sequential (log : List ε) : Prop := ∀ k, Steps rank content (history key log k)

variable {key rank content} {log : List ε} {e : ε} {k : κ}

theorem history_concat_of_ne (h : key e ≠ k) : history key (log ++ [e]) k = history key log k := by
  rw [history, List.filter_append, List.filter_singleton, decide_eq_false h, cond_false,
    List.append_nil]
  rfl

theorem history_concat_self : history key (log ++ [e]) (key e) = history key log (key e) ++ [e] := by
  rw [history, List.filter_append, List.filter_singleton, decide_eq_true rfl, cond_true]
  rfl

theorem steps_nil : Steps rank content ([] : List ε) := by
  intro pre e post h
  exact absurd h (by simp)

theorem Steps.concat {h : List ε} (hs : Steps rank content h)
    (he : Follows rank content h.getLast? e) : Steps rank content (h ++ [e]) := by
  intro pre a post heq
  obtain rfl | ⟨post', b, rfl⟩ := List.eq_nil_or_concat post
  · obtain ⟨h1, h2⟩ := List.append_inj' heq rfl
    rw [← h1, ← List.singleton_inj.mp h2]
    exact he
  · rw [List.concat_eq_append, ← List.cons_append, ← List.append_assoc] at heq
    exact hs pre a post' (List.append_inj' heq rfl).1

theorem sequential_nil : Sequential key rank content ([] : List ε) := fun _ => steps_nil

theorem Sequential.concat (h : Sequential key rank content log)
    (he : Follows rank content (history key log (key e)).getLast? e) :
    Sequential key rank content (log ++ [e]) := by
  intro k
  by_cases hk : key e = k
  · rw [← hk, history_concat_self]
    exact (h (key e)).concat he
  · rw [history_concat_of_ne hk]
    exact h k

/-- What precedes an entry of rank `n` ends with the entries of its content of the ranks before. -/
theorem Steps.block : ∀ {n : ℕ} {pre : List ε} {e : ε} {post : List ε},
    Steps rank content (pre ++ e :: post) → rank e = n →
    ∃ pre' blk, pre = pre' ++ blk ∧ blk.map rank = List.range n ∧
      ∀ a ∈ blk, content a = content e := by
  intro n
  induction n with
  | zero => exact fun {pre} _ _ _ _ => ⟨pre, [], (List.append_nil pre).symm, rfl, by simp⟩
  | succ n ih =>
      intro pre e post h he
      rcases h pre e post rfl with hzero | ⟨a, ha, hrank, hcontent⟩
      · omega
      obtain ⟨init, rfl⟩ := List.getLast?_eq_some_iff.mp ha
      rw [List.append_assoc] at h
      have hn : rank a = n := by omega
      obtain ⟨pre', blk, h1, h2, h3⟩ := ih h hn
      refine ⟨pre', blk ++ [a], by rw [h1, List.append_assoc], ?_, fun b hb => ?_⟩
      · rw [List.map_append, h2, List.range_succ, List.map_singleton, hn]
      · rcases List.mem_append.mp hb with hb | hb
        · rw [h3 b hb, hcontent]
        · rw [List.mem_singleton.mp hb, hcontent]

theorem Sequential.block {pre post : List ε} (h : Sequential key rank content (pre ++ e :: post)) :
    ∃ pre' blk, history key pre (key e) = pre' ++ blk ∧ blk.map rank = List.range (rank e) ∧
      ∀ a ∈ blk, content a = content e := by
  have hk := h (key e)
  rw [history, List.filter_append, List.filter_cons, if_pos (by simp)] at hk
  exact hk.block rfl

end Journal
