import DirectoryExchange.Proofs.Ldif.Parts

/-!
# Readers that come on

Every item that a reader gives lies further on in the stream than what it has taken before, but for
an error behind which nothing is read (`Advances`).  So whatever the reader is asked for, what it
has taken grows with every item, it gives no more items than the stream has octets and one more
(`length_callAll_le`), and once reading has ended it gives nothing and takes nothing
(`callAll_of_halted`).
-/

namespace DirectoryExchange

open Ldif (isFinal)

/-! ### Positions and items in order -/

/-- Whether the positions ascend from one that is passed already up to a last one. -/
def Ascends (last : Nat) : Nat → List Nat → Prop
  | p, [] => p ≤ last
  | p, n :: ns => p < n ∧ Ascends last n ns

namespace Ascends

variable {last p q n : Nat} {ns more : List Nat}

/-- Positions do not ascend beyond the last one. -/
lemma le (h : Ascends last p ns) : p ≤ last := by
  induction ns generalizing p with
  | nil => exact h
  | cons n ns ih => exact Nat.le_trans (Nat.le_of_lt h.1) (ih h.2)

/-- Positions that ascend from one ascend from any before it. -/
lemma of_le (h : Ascends last p ns) (hq : q ≤ p) : Ascends last q ns := by
  cases ns with
  | nil => exact Nat.le_trans hq h
  | cons n ns => exact ⟨Nat.lt_of_le_of_lt hq h.1, h.2⟩

lemma mono (h : Ascends last p ns) (hlast : last ≤ n) : Ascends n p ns := by
  induction ns generalizing p with
  | nil => exact Nat.le_trans h hlast
  | cons m ns ih => exact ⟨h.1, ih h.2⟩

lemma concat (h : Ascends last p ns) (hlast : last < n) : Ascends n p (ns ++ [n]) := by
  induction ns generalizing p with
  | nil => exact ⟨Nat.lt_of_le_of_lt h hlast, Nat.le_refl n⟩
  | cons m ns ih => exact ⟨h.1, ih h.2⟩

/-- Each position lies behind the first and not behind the last. -/
lemma lt_of_mem (h : Ascends last p ns) (hn : n ∈ ns) : p < n ∧ n ≤ last := by
  induction ns generalizing p with
  | nil => exact absurd hn List.not_mem_nil
  | cons m ns ih =>
    rcases List.mem_cons.1 hn with rfl | hn
    · exact ⟨h.1, h.2.le⟩
    · obtain ⟨hlt, hle⟩ := ih h.2 hn
      exact ⟨Nat.lt_trans h.1 hlt, hle⟩

lemma pairwise (h : Ascends last p ns) : ns.Pairwise (· < ·) := by
  induction ns generalizing p with
  | nil => exact .nil
  | cons n ns ih => exact .cons (fun _ hm => (h.2.lt_of_mem hm).1) (ih h.2)

/-- The first ones of positions that ascend do so. -/
lemma of_isPrefix (h : Ascends last p more) (hns : ns <+: more) : Ascends last p ns := by
  obtain ⟨rest, rfl⟩ := hns
  induction ns generalizing p with
  | nil => exact h.le
  | cons n ns ih => exact ⟨h.1, ih h.2⟩

/-- Positions in front of another one ascend up to it. -/
lemma of_concat (h : Ascends last p (ns ++ [n])) : Ascends n p ns := by
  induction ns generalizing p with
  | nil => exact Nat.le_of_lt h.1
  | cons m ns ih => exact ⟨h.1, ih h.2⟩

end Ascends

/-- Whether the items come on from the first position to the second, in a stream of so many octets.
Behind an error that is final there is nothing, and no more octets are taken. -/
inductive Advances (length : Nat) : Nat → List Item → Nat → Prop
  /-- The end is reached. -/
  | ended {p n : Nat} (hp : p ≤ n) (hn : n ≤ length) : Advances length p [] n
  /-- Nothing is read behind the item. -/
  | stopped {p : Nat} {item : Item} (hfinal : isFinal item = true) (hp : p ≤ item.position)
      (hn : item.position ≤ length) : Advances length p [item] item.position
  /-- The item lies further on, and so do those behind it. -/
  | given {p n : Nat} {item : Item} {rest : List Item} (hfinal : isFinal item = false)
      (hp : p < item.position) (hrest : Advances length item.position rest n) :
      Advances length p (item :: rest) n

namespace Advances

variable {length p q n : Nat} {items : List Item}

/-- Items come on within the stream. -/
lemma le (h : Advances length p items n) : p ≤ length := by
  induction h with
  | ended hp hn => exact Nat.le_trans hp hn
  | stopped _ hp hn => exact Nat.le_trans hp hn
  | given _ hp _ ih => exact Nat.le_trans (Nat.le_of_lt hp) ih

lemma end_le (h : Advances length p items n) : n ≤ length := by
  induction h with
  | ended _ hn => exact hn
  | stopped _ _ hn => exact hn
  | given _ _ _ ih => exact ih

/-- There are no more items than octets to come, and one more. -/
lemma length_le (h : Advances length p items n) : items.length + p ≤ length + 1 := by
  induction h with
  | ended hp hn =>
    rw [List.length_nil]
    omega
  | stopped _ hp hn =>
    rw [List.length_singleton]
    omega
  | given _ hp _ ih =>
    rw [List.length_cons]
    omega

/-- What comes on in a part of the stream comes on in the whole of it. -/
lemma mono {more : Nat} (h : Advances length p items n) (hlength : length ≤ more) :
    Advances more p items n := by
  induction h with
  | ended hp hn => exact .ended hp (Nat.le_trans hn hlength)
  | stopped hfinal hp hn => exact .stopped hfinal hp (Nat.le_trans hn hlength)
  | given hfinal hp _ ih => exact .given hfinal hp ih

/-- What comes on behind other octets of the stream comes on in the whole of it. -/
lemma behind (h : Advances length p items n) (k : Nat) :
    Advances (length + k) (p + k)
      (items.map fun item => { item with position := item.position + k }) (n + k) := by
  induction h with
  | ended hp hn => exact .ended (by omega) (by omega)
  | @stopped p item hfinal hp hn =>
    let further : Item := { item with position := item.position + k }
    have hfurther : isFinal further = true := hfinal
    exact .stopped hfurther (Nat.add_le_add_right hp k) (Nat.add_le_add_right hn k)
  | given hfinal hp _ ih => exact .given hfinal (Nat.add_lt_add_right hp k) ih

end Advances

/-! ### Calls in any order -/

namespace Reader

/-- What a reader is asked for. -/
inductive Call where
  /-- To give the next item. -/
  | next
  /-- To close. -/
  | close
  deriving DecidableEq

/-- What the reader gives, and how it goes on. -/
def call (r : Reader) : Call → Option Item × Reader
  | .next => r.next
  | .close => (none, r.close)

/-- What the reader gives for one call after the other, and how it is left. -/
def callAll (r : Reader) : List Call → List (Option Item) × Reader
  | [] => ([], r)
  | c :: rest =>
    let (answer, r) := r.call c
    let (answers, last) := r.callAll rest
    (answer :: answers, last)

/-- Whether reading ends with the call and its answer: the reader is closed, the end is reached, or
an error is final. -/
def Call.ends : Call → Option Item → Bool
  | .close, _ => true
  | .next, none => true
  | .next, some item => isFinal item

@[simp] lemma callAll_nil (r : Reader) : r.callAll [] = ([], r) := rfl

@[simp] lemma callAll_cons (r : Reader) (c : Call) (rest : List Call) :
    r.callAll (c :: rest) = ((r.call c).1 :: ((r.call c).2.callAll rest).1,
      ((r.call c).2.callAll rest).2) := rfl

/-- Whether the reader is closed, or stands behind some items of the feed, the others of which it
has still to give. -/
def Within (f : Feed) (r : Reader) : Prop :=
  r.closed = true ∨ ∃ given, f.items = given ++ r.remaining.items ∧
    r.position = (given.getLast?.map (·.position)).getD f.startPosition

/-- Whatever a reader is asked for, it stays within its feed. -/
lemma Within.callAll {f : Feed} {r : Reader} (h : r.Within f) (calls : List Call) :
    (r.callAll calls).2.Within f := by
  induction calls generalizing r with
  | nil => exact h
  | cons c calls ih =>
    rw [callAll_cons]
    refine ih ?_
    cases c with
    | close => exact .inl rfl
    | next =>
      rw [call, next]
      split
      · next hclosed => exact .inl hclosed
      · next hopen =>
        obtain ⟨given, hitems, -⟩ := h.resolve_left hopen
        split
        · exact .inl rfl
        · next item rest hremaining =>
          refine .inr ⟨given ++ [item], ?_, ?_⟩
          · simpa [hremaining] using hitems
          · simp

/-- The next item stands in the feed behind those that the reader has given, and its position is
where the reader is then. -/
lemma Within.of_next {f : Feed} {r r' : Reader} (h : r.Within f) {item : Item}
    (hnext : r.next = (some item, r')) :
    ∃ given rest, f.items = given ++ item :: rest ∧
      r.position = (given.getLast?.map (·.position)).getD f.startPosition ∧
      r'.position = item.position := by
  rw [next] at hnext
  split at hnext
  · cases hnext
  · next hopen =>
    obtain ⟨given, hitems, hposition⟩ := h.resolve_left hopen
    split at hnext
    · cases hnext
    · next first rest hremaining =>
      cases hnext
      exact ⟨given, rest, by rw [hitems, hremaining], hposition, rfl⟩

/-- Whether the reader gives nothing more. -/
def Halted (r : Reader) : Prop :=
  r.closed = true ∨ (r.remaining.items = [] ∧ r.remaining.endPosition = r.position)

/-- A reader that has halted gives nothing and takes nothing. -/
lemma call_of_halted {r : Reader} (h : r.Halted) (c : Call) :
    (r.call c).1 = none ∧ (r.call c).2.position = r.position ∧ (r.call c).2.Halted := by
  cases c with
  | close => exact ⟨rfl, rfl, .inl rfl⟩
  | next =>
    rw [call, next]
    split
    · next hclosed => exact ⟨rfl, rfl, .inl hclosed⟩
    · next hopen =>
      obtain ⟨hitems, hposition⟩ := h.resolve_left hopen
      rw [hitems]
      exact ⟨rfl, hposition, .inl rfl⟩

/-- Behind the end the reader gives nothing and takes nothing from the stream. -/
lemma callAll_of_halted {r : Reader} (h : r.Halted) (calls : List Call) :
    (r.callAll calls).1 = calls.map (fun _ => none) ∧
      (r.callAll calls).2.position = r.position := by
  induction calls generalizing r with
  | nil => exact ⟨rfl, rfl⟩
  | cons c calls ih =>
    obtain ⟨hanswer, hposition, hhalted⟩ := call_of_halted h c
    obtain ⟨hanswers, hlast⟩ := ih hhalted
    rw [callAll_cons, hanswer, hanswers, List.map_cons]
    exact ⟨rfl, hlast.trans hposition⟩

/-- Whether the reader is closed, or what it has still to give comes on from where it is. -/
structure Paced (length : Nat) (r : Reader) : Prop where
  /-- No more octets are taken than there are. -/
  position_le : r.position ≤ length
  /-- What is still to be given comes on. -/
  advances : r.closed = false →
    Advances length r.position r.remaining.items r.remaining.endPosition

/-- After every call either reading has ended or an item was given that lies further on. -/
lemma Paced.call {length : Nat} {r : Reader} (h : r.Paced length) (c : Call) :
    (r.call c).2.Paced length ∧
      ((c.ends (r.call c).1 = true ∧ (r.call c).2.Halted) ∨ ∃ item, c = .next ∧
        (r.call c).1 = some item ∧ isFinal item = false ∧
        r.position < (r.call c).2.position) := by
  cases c with
  | close => exact ⟨⟨h.position_le, nofun⟩, .inl ⟨rfl, .inl rfl⟩⟩
  | next =>
    rw [Reader.call, next]
    split
    · next hclosed => exact ⟨h, .inl ⟨rfl, .inl hclosed⟩⟩
    · next hopen =>
      have hadvances := h.advances (Bool.eq_false_iff.2 hopen)
      split
      · next hitems => exact ⟨⟨hadvances.end_le, nofun⟩, .inl ⟨rfl, .inl rfl⟩⟩
      · next item rest hitems =>
        rw [hitems] at hadvances
        generalize hend : r.remaining.endPosition = n at hadvances
        cases hadvances with
        | stopped hfinal hp hn =>
          refine ⟨⟨hn, fun _ => ?_⟩, .inl ⟨hfinal, .inr ⟨rfl, hend⟩⟩⟩
          change Advances length item.position [] r.remaining.endPosition
          rw [hend]
          exact .ended (Nat.le_refl _) hn
        | given hfinal hp hrest =>
          refine ⟨⟨hrest.le, fun _ => ?_⟩, .inr ⟨item, rfl, rfl, hfinal, hp⟩⟩
          rw [← hend] at hrest
          exact hrest

/-- Whatever a reader is asked for, it keeps its pace. -/
lemma Paced.callAll {length : Nat} {r : Reader} (h : r.Paced length) (calls : List Call) :
    (r.callAll calls).2.Paced length := by
  induction calls generalizing r with
  | nil => exact h
  | cons c calls ih => exact ih (h.call c).1

/-- There are no more items than octets to come, and one more, whatever the reader is asked for. -/
lemma Paced.length_callAll_le {length : Nat} {r : Reader} (h : r.Paced length)
    (calls : List Call) :
    ((r.callAll calls).1.filterMap id).length + r.position ≤ length + 1 := by
  induction calls generalizing r with
  | nil =>
    have hposition := h.position_le
    simp only [callAll_nil, List.filterMap_nil, List.length_nil]
    omega
  | cons c calls ih =>
    obtain ⟨hpaced, hcall⟩ := h.call c
    have hrest := ih hpaced
    have hone : (((r.call c).1 :: ((r.call c).2.callAll calls).1).filterMap id).length ≤
        (((r.call c).2.callAll calls).1.filterMap id).length + 1 := by
      cases (r.call c).1 <;> simp
    rw [callAll_cons]
    rcases hcall with ⟨-, hhalted⟩ | ⟨item, -, -, -, hlt⟩
    · have hposition := h.position_le
      have hnone : ((r.call c).2.callAll calls).1.filterMap id = [] := by
        rw [(callAll_of_halted hhalted calls).1]
        simp
      rw [hnone, List.length_nil] at hone
      simp only
      omega
    · simp only
      omega

end Reader

end DirectoryExchange
