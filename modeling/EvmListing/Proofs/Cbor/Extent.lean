import EvmListing.Proofs.Cbor.RoundTrip
import Mathlib.Tactic.Lemma
import Mathlib.Tactic.SplitIfs

/-! Reading an input with more bytes behind it. What was read stays as it is, and what failed fails
again, unless it failed for want of bytes. So an item is read from its own bytes only, and one that is
cut off is told by nothing but the end of the input. -/
namespace EvmListing.Cbor

/-- What becomes of a reading when bytes are added behind its input. Only one that ran out of input
may end in another way. -/
inductive Prolonged {α : Type} (q : Bytes) :
    Except Fault (α × Bytes) → Except Fault (α × Bytes) → Prop
  | cutOff {later : Except Fault (α × Bytes)} : Prolonged q (.error .endOfInput) later
  | given {x : α} {t : Bytes} : Prolonged q (.ok (x, t)) (.ok (x, t ++ q))
  | failed {fault fault' : Fault} : Prolonged q (.error fault) (.error fault')

/-- Whether the second reader does with longer inputs what the first one does with their fronts. -/
def Prolongs {α : Type} (r r' : Reader α) : Prop := ∀ s q, Prolonged q (r s) (r' (s ++ q))

section
variable {α β : Type} {q s s' : Bytes} {r r' : Reader α}

lemma Prolonged.andThen {o o' : Except Fault (α × Bytes)}
    {f f' : α × Bytes → Except Fault (β × Bytes)} (h : Prolonged q o o')
    (hf : ∀ x t, Prolonged q (f (x, t)) (f' (x, t ++ q))) : Prolonged q (o >>= f) (o' >>= f') := by
  cases h with
  | cutOff => exact .cutOff
  | given => exact hf _ _
  | failed => exact .failed

lemma Prolonged.bind {f f' : α → Reader β} (h : Prolonged q (r s) (r' s'))
    (hf : ∀ x t, Prolonged q (f x t) (f' x (t ++ q))) :
    Prolonged q ((r >>= f) s) ((r' >>= f') s') := h.andThen hf

namespace Prolongs

lemma pure (x : α) : Prolongs (pure x) (pure x) := fun _ _ => .given

lemma throw (fault fault' : Fault) : Prolongs (throw fault : Reader α) (throw fault') :=
  fun _ _ => .failed

lemma bind {f f' : α → Reader β} (h : Prolongs r r') (hf : ∀ x, Prolongs (f x) (f' x)) :
    Prolongs (r >>= f) (r' >>= f') :=
  fun s q => (h s q).bind fun x t => hf x t q

lemma map (h : Prolongs r r') (f : α → β) : Prolongs (f <$> r) (f <$> r') := by
  rw [map_eq_pure_bind, map_eq_pure_bind]
  exact h.bind fun x => pure (f x)

/-- Readers that look at the whole of their input. -/
lemma get {f f' : Bytes → Reader α} (h : ∀ s q, Prolonged q (f s s) (f' (s ++ q) (s ++ q))) :
    Prolongs (get >>= f) (get >>= f') := h

end Prolongs
end

lemma prolongs_take (n : Nat) : Prolongs (take n) (take n) := by
  intro s q
  by_cases hshort : s.length < n
  · have hs : take n s = .error .endOfInput := by
      rw [take, if_pos (by rw [List.length_take]; omega)]
    rw [hs]
    exact .cutOff
  · have htake {u : Bytes} (hu : n ≤ u.length) : take n u = .ok (u.take n, u.drop n) := by
      rw [take, if_neg (by rw [List.length_take]; omega)]
    have hle : n ≤ s.length := by omega
    rw [htake hle, htake (by rw [List.length_append]; omega), List.take_append_of_le_length hle,
      List.drop_append_of_le_length hle]
    exact .given

lemma prolongs_header : Prolongs header header := by
  intro s q
  cases s with
  | nil => exact .cutOff
  | cons first rest =>
    simp only [header, List.cons_append]
    split
    · exact .given
    · split
      · exact (prolongs_take _ rest q).andThen fun field t => .given
      · split
        · exact .given
        · exact .failed

/-- The fault that a text would show says where the text stands, so it is not the same. -/
lemma prolongs_pieces (fault fault' : Fault) (bound unread : Nat) (kept : Bytes) :
    Prolongs (pieces fault bound unread kept) (pieces fault' bound unread kept) := by
  induction bound generalizing unread kept with
  | zero =>
    unfold pieces
    split
    · exact .pure []
    · exact .throw fault fault'
  | succ bound ih =>
    unfold pieces
    split_ifs
    · exact .pure []
    · exact fun _ _ => .failed
    · refine .bind (prolongs_take _) fun fresh => ?_
      dsimp only
      split_ifs
      · exact fun _ _ => .failed
      · exact .bind (ih _ _) fun more => .pure _

lemma prolongs_textChunk (fault fault' : Fault) (n : Nat) :
    Prolongs (textChunk fault n) (textChunk fault' n) := prolongs_pieces fault fault' n n []

/-- The bound on the chunks grows with the input. Where it ends the reading, so does the input. -/
lemma prolongs_chunks {α : Type} {length? : Header → Option (Option Nat)}
    {chunk : Fault → Nat → Reader (List α)}
    (hchunk : ∀ fault fault' n, Prolongs (chunk fault n) (chunk fault' n))
    {bound bound' : Nat} (hle : bound ≤ bound') (depth : Nat) :
    Prolongs (chunks length? chunk bound depth) (chunks length? chunk bound' depth) := by
  induction bound generalizing bound' depth with
  | zero => exact fun _ _ => .cutOff
  | succ bound ih =>
    obtain ⟨bound', rfl⟩ := Nat.exists_eq_add_of_lt hle
    have ih := @ih (bound + bound') (Nat.le_add_right _ _)
    unfold chunks
    refine .get fun s q => Prolongs.bind prolongs_header (fun h => ?_) s q
    have hcontent (n : Nat) : Prolongs
        (do return (← chunk (.malformed 0 s) n) ++ (← chunks length? chunk bound depth))
        (do return (← chunk (.malformed 0 (s ++ q)) n) ++
          (← chunks length? chunk (bound + bound') depth)) :=
      .bind (hchunk _ _ n) fun content => .bind (ih depth) fun more => .pure _
    cases depth with
    | zero =>
      dsimp only
      split
      · exact .pure []
      · exact ih 1
      · exact hcontent _
      · exact .throw _ _
    | succ depth =>
      dsimp only
      split
      · exact ih depth
      · exact ih (depth + 2)
      · exact hcontent _
      · exact .throw _ _

lemma prolongs_byteString (length : Option Nat) :
    Prolongs (byteString length) (byteString length) := by
  cases length with
  | some n => exact prolongs_take n
  | none =>
    refine .get fun s q => ?_
    exact prolongs_chunks (fun _ _ n => prolongs_take n) (by simp) 0 s q

lemma prolongs_textString (length : Option Nat) :
    Prolongs (textString length) (textString length) := by
  refine .get fun s q => ?_
  cases length with
  | none => exact prolongs_chunks prolongs_textChunk (by simp) 0 s q
  | some n =>
    dsimp only
    split_ifs
    · refine Prolongs.bind (prolongs_take n) (fun content => ?_) s q
      cases Utf8.decode? content with
      | some t => exact .pure t
      | none => exact .throw _ _
    · exact prolongs_textChunk _ _ n s q

/-- Whether a reader looks at no byte behind what it reads, and reads at least one. -/
structure Delimits {α : Type} (r : Reader α) : Prop where
  prolongs : Prolongs r r
  empty : r [] = .error .endOfInput

section
variable {α : Type} {r : Reader α}

lemma prolongs_exactly (h : Prolongs r r) (n : Nat) : Prolongs (exactly r n) (exactly r n) := by
  induction n with
  | zero => exact .pure []
  | succ n ih => exact .bind h fun x => .bind ih fun xs => .pure (x :: xs)

lemma untilStop_of_head {bound : Nat} {s : Bytes} (h : s.head? ≠ some 0xFF) :
    untilStop r (bound + 1) s = (do return (← r) :: (← untilStop r bound) : Reader (List α)) s := by
  cases s with
  | nil => rfl
  | cons b s =>
    rw [untilStop, bind_of_ok (get_eq _)]
    refine congrFun ?_ (b :: s)
    split
    · next hb => exact absurd (congrArg some (List.cons.inj hb).1) h
    · rfl

/-- Where a break may stand and the input has come to its end, so has an element. -/
lemma prolongs_untilStop (h : Delimits r) {bound bound' : Nat} (hle : bound ≤ bound') :
    Prolongs (untilStop r bound) (untilStop r bound') := by
  induction bound generalizing bound' with
  | zero => exact fun _ _ => .cutOff
  | succ bound ih =>
    obtain ⟨bound', rfl⟩ := Nat.exists_eq_add_of_lt hle
    have hmore : Prolongs (do return (← r) :: (← untilStop r bound))
        (do return (← r) :: (← untilStop r (bound + bound'))) :=
      .bind h.prolongs fun x => .bind (ih (Nat.le_add_right _ _)) fun xs => .pure (x :: xs)
    intro s q
    cases s with
    | nil =>
      rw [untilStop_of_head (by simp), bind_of_error h.empty]
      exact .cutOff
    | cons b s =>
      by_cases hb : b = 0xFF
      · subst hb
        exact .given
      · have hhead {u : Bytes} : (b :: u).head? ≠ some 0xFF := fun h => hb (Option.some.inj h)
        rw [List.cons_append, untilStop_of_head hhead, untilStop_of_head hhead]
        exact hmore (b :: s) q

lemma prolongs_sequence (h : Delimits r) (length : Option Nat) :
    Prolongs (sequence r length) (sequence r length) := by
  cases length with
  | some n => exact prolongs_exactly h.prolongs n
  | none =>
    refine .get fun s q => ?_
    exact prolongs_untilStop h (by simp) s q

end

lemma Delimits.entry {r : Reader Item} (h : Delimits r) : Delimits (entry r) where
  prolongs := .bind h.prolongs fun key => .bind h.prolongs fun value => .pure (key, value)
  empty := bind_of_error h.empty _

lemma prolongs_bignum (number length : Nat) :
    Prolongs (bignum number length) (bignum number length) := by
  refine .bind (prolongs_take length) fun content => ?_
  dsimp only
  split_ifs
  · exact .pure _
  · exact .pure _
  · exact .throw _ _
  · exact .pure _

section
variable {inner : Option (Reader Item)}

lemma prolongs_descend {k : Reader Item → Reader Item} (h : ∀ r ∈ inner, Prolongs (k r) (k r)) :
    Prolongs (descend inner k) (descend inner k) := by
  cases inner with
  | none => exact .throw _ _
  | some r => exact h r rfl

/-- A header that was only looked at is put back, together with the bytes behind it. -/
lemma prolongs_tagged (h : ∀ r ∈ inner, Delimits r) (number : Nat) :
    Prolongs (tagged inner number) (tagged inner number) := by
  have hcontent : Prolongs (descend inner fun r => Item.tag number <$> r)
      (descend inner fun r => Item.tag number <$> r) :=
    prolongs_descend fun r hr => (h r hr).prolongs.map _
  refine .get fun s q => (prolongs_header s q).bind fun found t => ?_
  split
  · split_ifs
    · exact prolongs_bignum number _ t q
    · exact hcontent s q
  · exact hcontent s q

theorem delimits_itemWith (h : ∀ r ∈ inner, Delimits r) : Delimits (itemWith inner) where
  empty := rfl
  prolongs := by
    refine .bind prolongs_header fun found => ?_
    split
    case h_1 n => exact .pure _
    case h_2 n => exact .pure _
    case h_3 length => exact .map (prolongs_byteString length) _
    case h_4 length => exact .map (prolongs_textString length) _
    case h_5 length =>
      exact prolongs_descend fun r hr => .map (prolongs_sequence (h r hr) length) _
    case h_6 length =>
      exact prolongs_descend fun r hr => .map (prolongs_sequence (h r hr).entry length) _
    case h_7 number => exact prolongs_tagged h number
    case h_8 x => exact .pure _
    case h_13 => exact .throw _ _
    case h_14 => exact .throw _ _
    all_goals exact .pure _

end

theorem delimits_itemWithin (levels : Nat) : Delimits (itemWithin levels) := by
  induction levels with
  | zero => exact delimits_itemWith nofun
  | succ levels ih =>
    refine delimits_itemWith fun r hr => ?_
    obtain rfl := Option.mem_some_iff.mp hr
    exact ih

theorem delimits_item : Delimits item := delimits_itemWithin maxDepth

section
variable {s t : Bytes} {x : Item}

/-- What was read of an input is read of the longer one, and what is behind stays. -/
theorem item_append (h : item s = .ok (x, t)) (q : Bytes) : item (s ++ q) = .ok (x, t ++ q) := by
  have hq := delimits_item.prolongs s q
  rw [h] at hq
  generalize item (s ++ q) = o at hq ⊢
  cases hq
  rfl

/-- An item that was cut off, be it before its first byte, is told by the end of the input. -/
theorem item_of_cut {v q : Bytes} (h : item (v ++ q) = .ok (x, [])) (hq : q ≠ []) :
    item v = .error .endOfInput := by
  have hv := delimits_item.prolongs v q
  rw [h] at hv
  generalize item v = o at hv ⊢
  generalize hrest : (Except.ok (x, []) : Except Fault (Item × Bytes)) = o' at hv
  cases hv with
  | cutOff => rfl
  | @given y t =>
    have ht := (Prod.mk.inj (Except.ok.inj hrest)).2
    exact absurd (List.append_eq_nil_iff.mp ht.symm).2 hq
  | failed => cases hrest

end

end EvmListing.Cbor
