import Mathlib.Data.Nat.Notation

/-!
# Names in packets

A domain name stands in a packet as labels up to the root label, any part of it
replaced by a pointer to another place of the packet (RFC 1035, section 4.1.4).
The relation below says which labels a position stands for, through how many
pointers they are reached and where the name ends at that position; it has one
rule for each kind of first byte.
-/

namespace Foundation

/-- The name at a position, the number of pointers on the way to its root label
and the position behind it. -/
inductive EncodedName (packet : List UInt8) :
    Nat → Nat → List (List UInt8) → Nat → Prop where
  | root {pos : Nat} (byte : packet[pos]? = some 0) :
      EncodedName packet pos 0 [] (pos + 1)
  | label {pos pointers after : Nat} {len : UInt8} {labels : List (List UInt8)}
      (byte : packet[pos]? = some len) (positive : 0 < len.toNat)
      (short : len.toNat < 64) (fits : pos + 1 + len.toNat ≤ packet.length)
      (rest : EncodedName packet (pos + 1 + len.toNat) pointers labels after) :
      EncodedName packet pos pointers
        ((packet.drop (pos + 1)).take len.toNat :: labels) after
  | pointer {pos pointers behind : Nat} {high low : UInt8}
      {labels : List (List UInt8)}
      (byte : packet[pos]? = some high) (marked : 192 ≤ high.toNat)
      (second : packet[pos + 1]? = some low)
      (target : EncodedName packet (256 * (high.toNat - 192) + low.toNat)
        pointers labels behind) :
      EncodedName packet pos (pointers + 1) labels (pos + 2)

namespace EncodedName

variable {packet : List UInt8} {pos pointers after : Nat}
  {labels : List (List UInt8)}

theorem inside (name : EncodedName packet pos pointers labels after) :
    pos < packet.length := by
  cases name with
  | root byte => exact (List.getElem?_eq_some_iff.mp byte).1
  | label byte => exact (List.getElem?_eq_some_iff.mp byte).1
  | pointer byte => exact (List.getElem?_eq_some_iff.mp byte).1

theorem labels_ne_nil (name : EncodedName packet pos pointers labels after) :
    ∀ label ∈ labels, label ≠ [] := by
  induction name with
  | root byte => exact fun label member => nomatch member
  | @label pos pointers after len labels byte positive short fits rest
      induction =>
    intro label member
    rcases List.mem_cons.mp member with rfl | later
    · intro empty
      have len' := congrArg List.length empty
      rw [List.length_take, List.length_drop, List.length_nil] at len'
      omega
    · exact induction label later
  | pointer byte marked second target induction => exact induction

/-! One rule applies, by the first byte. -/

theorem at_root (here : packet[pos]? = some 0) :
    EncodedName packet pos pointers labels after ↔
      pointers = 0 ∧ labels = [] ∧ after = pos + 1 := by
  constructor
  · intro name
    cases name with
    | root byte => exact ⟨rfl, rfl, rfl⟩
    | label byte positive =>
      cases Option.some.inj (here.symm.trans byte)
      exact absurd positive (Nat.lt_irrefl 0)
    | pointer byte marked =>
      cases Option.some.inj (here.symm.trans byte)
      exact absurd marked (by decide)
  · rintro ⟨rfl, rfl, rfl⟩
    exact .root here

theorem at_label {len : UInt8} (here : packet[pos]? = some len)
    (positive : 0 < len.toNat) (short : len.toNat < 64) :
    EncodedName packet pos pointers labels after ↔
      pos + 1 + len.toNat ≤ packet.length ∧ ∃ rest,
        labels = (packet.drop (pos + 1)).take len.toNat :: rest ∧
        EncodedName packet (pos + 1 + len.toNat) pointers rest after := by
  constructor
  · intro name
    cases name with
    | root byte =>
      cases Option.some.inj (here.symm.trans byte)
      exact absurd positive (Nat.lt_irrefl 0)
    | label byte _ _ fits rest =>
      cases Option.some.inj (here.symm.trans byte)
      exact ⟨fits, _, rfl, rest⟩
    | pointer byte marked =>
      cases Option.some.inj (here.symm.trans byte)
      omega
  · rintro ⟨fits, rest, rfl, name⟩
    exact .label here positive short fits name

theorem at_pointer {high : UInt8} (here : packet[pos]? = some high)
    (marked : 192 ≤ high.toNat) :
    EncodedName packet pos pointers labels after ↔
      ∃ low fewer behind, packet[pos + 1]? = some low ∧
        pointers = fewer + 1 ∧ after = pos + 2 ∧
        EncodedName packet (256 * (high.toNat - 192) + low.toNat) fewer labels
          behind := by
  constructor
  · intro name
    cases name with
    | root byte =>
      cases Option.some.inj (here.symm.trans byte)
      exact absurd marked (by decide)
    | label byte _ short =>
      cases Option.some.inj (here.symm.trans byte)
      omega
    | pointer byte _ second target =>
      cases Option.some.inj (here.symm.trans byte)
      exact ⟨_, _, _, second, rfl, rfl, target⟩
  · rintro ⟨low, fewer, behind, second, rfl, rfl, target⟩
    exact .pointer here marked second target

theorem not_reserved {byte : UInt8} (here : packet[pos]? = some byte)
    (large : 64 ≤ byte.toNat) (small : byte.toNat < 192) :
    ¬EncodedName packet pos pointers labels after := by
  intro name
  cases name with
  | root byte =>
    cases Option.some.inj (here.symm.trans byte)
    exact absurd large (by decide)
  | label byte _ short =>
    cases Option.some.inj (here.symm.trans byte)
    omega
  | pointer byte marked =>
    cases Option.some.inj (here.symm.trans byte)
    omega

end EncodedName

/-! ## Dotted text -/

/-- The text of a name: its labels with dots between them, and a dot alone for
the root. -/
def dotted (labels : List (List UInt8)) : List UInt8 :=
  if labels = [] then [46] else List.intercalate [46] labels

/-- A label behind the text so far. -/
def addLabel (text label : List UInt8) : List UInt8 :=
  if text = [] then label else text ++ 46 :: label

/-- Complete the text. -/
def closeText (text : List UInt8) : List UInt8 :=
  if text = [] then [46] else text

theorem addLabel_ne_nil {text label : List UInt8} (some' : label ≠ []) :
    addLabel text label ≠ [] := by
  unfold addLabel
  split
  · exact some'
  · intro empty
    cases (List.append_eq_nil_iff.mp empty).2

theorem foldl_addLabel {text : List UInt8} (some' : text ≠ [])
    {labels : List (List UInt8)} (full : ∀ label ∈ labels, label ≠ []) :
    labels.foldl addLabel text = List.intercalate [46] (text :: labels) := by
  induction labels generalizing text with
  | nil => simp [List.intercalate]
  | cons label labels induction =>
    rw [List.foldl_cons, induction
      (addLabel_ne_nil (full label List.mem_cons_self))
      (fun other member => full other (List.mem_cons_of_mem _ member)),
      addLabel, if_neg some']
    cases labels with
    | nil => simp [List.intercalate]
    | cons next labels => simp [List.intercalate]

/-- Label by label the dotted text is made. -/
theorem closeText_foldl {labels : List (List UInt8)}
    (full : ∀ label ∈ labels, label ≠ []) :
    closeText (labels.foldl addLabel []) = dotted labels := by
  cases labels with
  | nil => rfl
  | cons label labels =>
    have first := full label List.mem_cons_self
    have start : addLabel [] label = label := rfl
    have rest : ∀ other ∈ labels, other ≠ [] :=
      fun other member => full other (List.mem_cons_of_mem _ member)
    rw [List.foldl_cons, start, foldl_addLabel first rest, dotted,
      if_neg (List.cons_ne_nil _ _), closeText, if_neg]
    intro empty
    cases labels with
    | nil => simp [List.intercalate, first] at empty
    | cons next labels => simp [List.intercalate] at empty

theorem length_le_foldl_addLabel (text : List UInt8)
    (labels : List (List UInt8)) :
    text.length ≤ (labels.foldl addLabel text).length := by
  induction labels generalizing text with
  | nil => exact Nat.le_refl _
  | cons label labels induction =>
    refine Nat.le_trans ?_ (induction (addLabel text label))
    unfold addLabel
    split
    · rename_i empty
      rw [empty]
      exact Nat.zero_le _
    · rw [List.length_append]
      exact Nat.le_add_right _ _

theorem length_le_closeText (text : List UInt8) :
    text.length ≤ (closeText text).length := by
  unfold closeText
  split
  · rename_i empty
    rw [empty]
    exact Nat.zero_le _
  · exact Nat.le_refl _

/-! ## Encoding -/

/-- The labels of a name as they stand in a packet, without the root label. -/
def wireLabels (labels : List (List UInt8)) : List UInt8 :=
  labels.flatMap fun label => UInt8.ofNat label.length :: label

/-- A label that fits the six bits of its length. -/
def LabelFits (label : List UInt8) : Prop :=
  0 < label.length ∧ label.length ≤ 63

theorem wireLabels_cons (label : List UInt8) (labels : List (List UInt8)) :
    wireLabels (label :: labels) =
      UInt8.ofNat label.length :: label ++ wireLabels labels := rfl

/-- Every label takes as much room as in the text, with its length byte in the
place of the dot. -/
theorem wireLabels_length {labels : List (List UInt8)} (some' : labels ≠ []) :
    (wireLabels labels).length =
      (List.intercalate [46] labels).length + 1 := by
  induction labels with
  | nil => exact absurd rfl some'
  | cons label labels induction =>
    rw [wireLabels_cons, List.length_append, List.length_cons]
    cases labels with
    | nil => simp [wireLabels, List.intercalate]
    | cons next labels =>
      rw [induction (by simp)]
      simp [List.intercalate]
      omega

theorem EncodedName.of_wire {labels : List (List UInt8)}
    (fit : ∀ label ∈ labels, LabelFits label) (front back : List UInt8) :
    EncodedName (front ++ wireLabels labels ++ 0 :: back) front.length 0 labels
      (front.length + (wireLabels labels).length + 1) := by
  induction labels generalizing front with
  | nil => exact .root (by simp [wireLabels])
  | cons label labels induction =>
    rw [List.forall_mem_cons] at fit
    obtain ⟨⟨positive, short⟩, fit⟩ := fit
    rw [wireLabels_cons]
    have size : (UInt8.ofNat label.length).toNat = label.length := by
      rw [UInt8.toNat_ofNat']
      omega
    generalize UInt8.ofNat label.length = len at size
    have rest := induction fit (front ++ len :: label)
    have whole : front ++ (len :: label ++ wireLabels labels) ++ 0 :: back =
        front ++ len :: label ++ wireLabels labels ++ 0 :: back := by
      simp
    have place : (front ++ len :: label).length =
        front.length + 1 + len.toNat := by
      simp [size]
      omega
    have behind : front.length +
        (len :: label ++ wireLabels labels).length + 1 =
          front.length + 1 + len.toNat + (wireLabels labels).length + 1 := by
      simp [size]
      omega
    rw [place] at rest
    rw [whole, behind]
    have here : (front ++ len :: label ++ wireLabels labels ++
        0 :: back)[front.length]? = some len := by
      simp
    refine (at_label here ?_ ?_).2 ⟨?_, labels, ?_, rest⟩
    · rwa [size]
    · rw [size]
      omega
    · simp [size]
      omega
    · simp [size, ← List.drop_drop]

end Foundation
