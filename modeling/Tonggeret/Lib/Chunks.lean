import Mathlib.Data.List.Induction

/-!
# Chunks by count

A list is cut after every `n` elements that satisfy a predicate, the cut standing
right after such an element.  The open chunk at the end is kept if it holds one of
them.
-/

namespace Tonggeret.Lib.Chunks

variable {α : Type} (p : α → Bool) (n : Nat)

/-- Add an element to the open chunk, and close it when it is full.  A pair holds the
elements of the closed chunks and of the open one. -/
def push (c : List α × List α) (x : α) : List α × List α :=
  if p x ∧ n ≤ (c.2 ++ [x]).countP p then (c.1 ++ (c.2 ++ [x]), []) else (c.1, c.2 ++ [x])

def split (l : List α) : List α × List α := l.foldl (push p n) ([], [])

/-- The last chunk counts if it holds an element that satisfies the predicate. -/
def close (c : List α × List α) : List α := if c.2.countP p = 0 then c.1 else c.1 ++ c.2

/-- The elements kept in the end. -/
def kept (l : List α) : List α := close p (split p n l)

/-- The elements end, after a full chunk, with one that is not counted. -/
def EndsBetween (l : List α) : Prop := n ∣ l.countP p ∧ ∃ x ∈ l.getLast?, p x = false

/-- The closed chunks are full and end with a counted element; the open one is not
full. -/
structure Whole (c : List α × List α) : Prop where
  full : n ∣ c.1.countP p
  last : ∀ x ∈ c.1.getLast?, p x = true
  room : c.2.countP p < n

variable {p n} {c : List α × List α} {l : List α}

theorem push_of_not {x : α} (hx : p x = false) : push p n c x = (c.1, c.2 ++ [x]) :=
  if_neg fun h => by simp [hx] at h

theorem push_of_full {x : α} (hx : p x = true) (hfull : n ≤ (c.2 ++ [x]).countP p) :
    push p n c x = (c.1 ++ (c.2 ++ [x]), []) := if_pos ⟨hx, hfull⟩

theorem push_of_room {x : α} (hroom : ¬ n ≤ (c.2 ++ [x]).countP p) :
    push p n c x = (c.1, c.2 ++ [x]) := if_neg fun h => hroom h.2

theorem split_concat (l : List α) (x : α) : split p n (l ++ [x]) = push p n (split p n l) x := by
  simp [split]

theorem push_append (c : List α × List α) (x : α) :
    (push p n c x).1 ++ (push p n c x).2 = c.1 ++ c.2 ++ [x] := by
  unfold push
  split <;> simp

theorem split_append (l : List α) : (split p n l).1 ++ (split p n l).2 = l := by
  induction l using List.reverseRecOn with
  | nil => rfl
  | append_singleton l x ih => rw [split_concat, push_append, ih]

theorem Whole.push (h : Whole p n c) (x : α) : Whole p n (push p n c x) := by
  have hroom := h.room
  unfold Chunks.push
  split
  case isTrue hfull =>
    have hcount : (c.2 ++ [x]).countP p = n := by
      simp only [List.countP_append, List.countP_singleton, hfull.1, if_true] at hfull ⊢
      omega
    refine ⟨?_, ?_, by simpa using Nat.zero_lt_of_lt hroom⟩
    · rw [List.countP_append, hcount]
      exact Nat.dvd_add h.full (Nat.dvd_refl n)
    · simpa [← List.append_assoc] using hfull.1
  case isFalse hopen =>
    refine ⟨h.full, h.last, ?_⟩
    by_cases hx : p x
    · simpa [hx] using hopen
    · simpa [hx] using hroom

theorem split_whole (hn : 0 < n) (l : List α) : Whole p n (split p n l) := by
  induction l using List.reverseRecOn with
  | nil => exact ⟨Nat.dvd_zero n, by simp [split], by simpa [split] using hn⟩
  | append_singleton l x ih =>
      rw [split_concat]
      exact ih.push x

/-- What is not kept is a final part without any counted element. -/
theorem exists_kept_append (l : List α) :
    ∃ dropped, kept p n l ++ dropped = l ∧ dropped.countP p = 0 := by
  unfold kept close
  by_cases hnone : (split p n l).2.countP p = 0
  · exact ⟨(split p n l).2, by rw [if_pos hnone, split_append], hnone⟩
  · exact ⟨[], by rw [if_neg hnone, split_append, List.append_nil], rfl⟩

/-- Everything is kept unless the list ends between two chunks. -/
theorem kept_eq_self_iff (hn : 0 < n) : kept p n l = l ↔ ¬ EndsBetween p n l := by
  have hwhole := split_whole (p := p) hn l
  have happend := split_append (p := p) (n := n) l
  unfold kept close
  generalize split p n l = c at hwhole happend
  obtain ⟨closed, tail⟩ := c
  have hroom : tail.countP p < n := hwhole.room
  dsimp only at happend ⊢
  subst happend
  by_cases hnone : tail.countP p = 0
  · have hfull : n ∣ (closed ++ tail).countP p := by
      rw [List.countP_append, hnone]
      exact hwhole.full
    rw [if_pos hnone, List.self_eq_append_right]
    constructor
    · rintro rfl ⟨-, x, hx, hfalse⟩
      rw [List.append_nil] at hx
      exact absurd (hwhole.last x hx) (by simp [hfalse])
    · intro hends
      by_contra hne
      have hlast : tail.getLast hne ∈ (closed ++ tail).getLast? := by
        rw [List.getLast?_append, List.getLast?_eq_some_getLast hne]
        rfl
      have hfalse : p (tail.getLast hne) = false := by
        simpa using List.countP_eq_zero.mp hnone _ (List.getLast_mem hne)
      exact hends ⟨hfull, _, hlast, hfalse⟩
  · rw [if_neg hnone]
    refine iff_of_true rfl ?_
    rintro ⟨hfull, -⟩
    rw [List.countP_append, ← Nat.dvd_add_iff_right hwhole.full] at hfull
    exact absurd (Nat.le_of_dvd (Nat.pos_of_ne_zero hnone) hfull) (Nat.not_le_of_lt hroom)

/-! ## Length of the open chunk -/

/-- Elements join the open chunk as long as it does not become full. -/
theorem foldl_push_of_room {u : List α} (h : c.2.countP p + u.countP p < n) :
    u.foldl (push p n) c = (c.1, c.2 ++ u) := by
  induction u generalizing c with
  | nil => simp
  | cons x u ih =>
      rw [List.countP_cons] at h
      have hopen : push p n c x = (c.1, c.2 ++ [x]) := by
        apply push_of_room
        rw [List.countP_append, List.countP_singleton]
        omega
      have hroom : (c.2 ++ [x]).countP p + u.countP p < n := by
        rw [List.countP_append, List.countP_singleton]
        omega
      rw [List.foldl_cons, hopen, ih hroom]
      simp

theorem length_split_of_all (hn : 0 < n) (hall : ∀ x ∈ l, p x = true) :
    (split p n l).2.length = l.length % n := by
  have hwhole := split_whole (p := p) hn l
  have happend := split_append (p := p) (n := n) l
  have hmem : ∀ x, x ∈ (split p n l).1 ∨ x ∈ (split p n l).2 → p x = true := by
    intro x hx
    apply hall
    rw [← happend, List.mem_append]
    exact hx
  have hfull := hwhole.full
  have hroom := hwhole.room
  rw [List.countP_eq_length.mpr fun x hx => hmem x (Or.inl hx)] at hfull
  rw [List.countP_eq_length.mpr fun x hx => hmem x (Or.inr hx)] at hroom
  have hlength : l.length = (split p n l).1.length + (split p n l).2.length := by
    rw [← List.length_append, happend]
  rw [hlength, Nat.add_mod, Nat.mod_eq_zero_of_dvd hfull, Nat.zero_add, Nat.mod_mod,
    Nat.mod_eq_of_lt hroom]

/-- After the counted elements `t` at the front, everything joins the open chunk until
its length is `n`: one of its elements does not count. -/
theorem length_split_append {t u : List α} (hn : 0 < n) (hall : ∀ x ∈ t, p x = true)
    (hhead : ∀ x ∈ u.head?, p x = false) (hroom : t.length % n + u.length ≤ n) :
    (split p n (t ++ u)).2.length = t.length % n + u.length := by
  have ht := length_split_of_all hn hall
  cases u with
  | nil => simpa using ht
  | cons y u =>
      have hy : p y = false := hhead y rfl
      have hcount : (split p n t).2.countP p + (y :: u).countP p < n := by
        have hle := List.countP_le_length (p := p) (l := (split p n t).2)
        have hle' := List.countP_le_length (p := p) (l := u)
        rw [List.length_cons] at hroom
        rw [List.countP_cons_of_neg (by simp [hy])]
        omega
      have hsplit : split p n (t ++ y :: u) =
          ((split p n t).1, (split p n t).2 ++ y :: u) := by
        rw [split, List.foldl_append]
        exact foldl_push_of_room hcount
      rw [hsplit, List.length_append, ht]

/-- What follows the counted elements at the front begins with one that does not count. -/
theorem head?_take_dropWhile (j : Nat) :
    ∀ x ∈ ((l.dropWhile p).take j).head?, p x = false := by
  intro x hx
  have hdrop : x ∈ (l.dropWhile p).head? := by
    rw [List.head?_take] at hx
    split at hx
    · contradiction
    · exact hx
  have hnot := List.head?_dropWhile_not p l
  rw [Option.mem_def.mp hdrop] at hnot
  simpa using hnot

/-- The open chunk always has room for the next element exactly if no more than `n`
elements follow the last full chunk before the first element that does not count. -/
theorem room_iff (hn : 0 < n) :
    (∀ done x rest, l = done ++ x :: rest → (split p n done).2.length < n) ↔
      l.length ≤ ((l.takeWhile p).length / n + 1) * n := by
  have hall : ∀ x ∈ l.takeWhile p, p x = true := List.all_eq_true.mp List.all_takeWhile
  have hhead := head?_take_dropWhile (p := p) (l := l)
  have hsplit := List.takeWhile_append_dropWhile (p := p) (l := l)
  have hlength : (l.takeWhile p).length + (l.dropWhile p).length = l.length := by
    rw [← List.length_append, hsplit]
  have hdiv := Nat.div_add_mod (l.takeWhile p).length n
  have hmod := Nat.mod_lt (l.takeWhile p).length hn
  have hexpand : ((l.takeWhile p).length / n + 1) * n =
      n * ((l.takeWhile p).length / n) + n := by
    rw [Nat.add_mul, Nat.one_mul, Nat.mul_comm]
  constructor
  · intro hopen
    by_contra hlong
    -- the element that finds the open chunk with `n` elements
    let j := n - (l.takeWhile p).length % n
    have hj : j < (l.dropWhile p).length := by omega
    have hdone : l = (l.takeWhile p ++ (l.dropWhile p).take j) ++
        (l.dropWhile p)[j] :: (l.dropWhile p).drop (j + 1) := by
      rw [List.append_assoc, List.getElem_cons_drop, List.take_append_drop, hsplit]
    have htake : ((l.dropWhile p).take j).length = j := List.length_take_of_le (Nat.le_of_lt hj)
    have hfull := length_split_append hn hall (hhead j) (by omega)
    have hlt := hopen _ _ _ hdone
    omega
  · intro hshort done x rest hdone
    have hlt : done.length < l.length := by
      rw [hdone]
      simp
    by_cases hfront : done.length ≤ (l.takeWhile p).length
    · have hinit : done <+: l.takeWhile p := by
        apply List.prefix_of_prefix_length_le ⟨x :: rest, hdone.symm⟩
        · exact List.takeWhile_prefix p
        · exact hfront
      have hcounted : ∀ y ∈ done, p y = true := fun y hy => hall y (hinit.subset hy)
      rw [length_split_of_all hn hcounted]
      exact Nat.mod_lt _ hn
    · let j := done.length - (l.takeWhile p).length
      have htake : done = l.takeWhile p ++ (l.dropWhile p).take j := by
        have hinit : done = (l.takeWhile p ++ l.dropWhile p).take done.length := by
          rw [hsplit, hdone, List.take_left]
        rw [List.take_append, List.take_of_length_le (by omega)] at hinit
        exact hinit
      have hj : ((l.dropWhile p).take j).length = j := by
        rw [List.length_take]
        omega
      rw [htake, length_split_append hn hall (hhead j) (by omega), hj]
      omega

end Tonggeret.Lib.Chunks
