import Gmker.Dns.Names

/-!
# DNS queries

`dns_build_query` of the program `dns` encodes a name for a query.  What it
accepts is decoded to the same name by `dns_name`.  It holds the text of the
name, trailing dots included, to the limit that RFC 1035 sets to the encoded
name.
-/

namespace Gmker.Dns

open Foundation

variable {name label rest packet : List UInt8} {labels : List (List UInt8)}
  {id : UInt16}

def dnsNameMax : Nat := 255

/-- `dns_put16`. -/
def dnsPut16 (value : UInt16) : List UInt8 :=
  [(value >>> 8).toUInt8, value.toUInt8]

/-- The header of a query with one question. -/
def dnsHeader (id : UInt16) : List UInt8 :=
  dnsPut16 id ++ [0, 0] ++ dnsPut16 1 ++ [0, 0, 0, 0, 0, 0]

/-- The name without its trailing dots. -/
def dnsTrim (name : List UInt8) : List UInt8 :=
  (name.reverse.dropWhile (· == 46)).reverse

/-- The end of a label in the loop of `dns_build_query`. -/
def dnsPutLabel (packet label : List UInt8) : Option (List UInt8) :=
  if label.length = 0 ∨ 63 < label.length ∨
      gmUdpMax < packet.length + 1 + label.length + 5 then none
  else some (packet ++ UInt8.ofNat label.length :: label)

/-- The loop of `dns_build_query`, with the characters since `start`. -/
def dnsPutLabels (packet label : List UInt8) :
    List UInt8 → Option (List UInt8)
  | [] => dnsPutLabel packet label
  | symbol :: rest =>
    if symbol ≠ 46 then dnsPutLabels packet (label ++ [symbol]) rest
    else (dnsPutLabel packet label).bind fun packet =>
      dnsPutLabels packet [] rest

/-- `dns_build_query`: the packet up to `*packet_len`. -/
def dnsBuildQuery (name : List UInt8) (id : UInt16) : Option (List UInt8) :=
  if name = [] ∨ dnsNameMax < name.length then none
  else if dnsTrim name = [] then none
  else
    (dnsPutLabels (dnsHeader id) [] (dnsTrim name)).map fun packet =>
      packet ++ [0] ++ dnsPut16 1 ++ dnsPut16 1

/-! ## Labels -/

instance (label : List UInt8) : Decidable (LabelFits label) :=
  inferInstanceAs (Decidable (_ ∧ _))

/-- The loop takes the labels between the dots. -/
theorem dnsPutLabels_eq (packet label rest : List UInt8) :
    dnsPutLabels packet label rest =
      ((rest.splitOn 46).modifyHead (label ++ ·)).foldlM dnsPutLabel
        packet := by
  induction rest generalizing packet label with
  | nil => simp [dnsPutLabels, List.splitOn]
  | cons symbol rest induction =>
    rw [dnsPutLabels, List.splitOn_cons_eq_if_modifyHead]
    obtain ⟨first, others, parts⟩ :=
      List.exists_cons_of_ne_nil (List.splitOn_ne_nil 46 rest)
    by_cases dot : symbol = 46
    · rw [if_neg (fun other => other dot), if_pos (by simpa using dot)]
      simp [induction, parts]
    · rw [if_pos dot, if_neg (by simpa using dot), induction, parts]
      simp

/-- Labels that fit are encoded one behind the other. -/
theorem foldlM_dnsPutLabel
    (room : packet.length + (wireLabels labels).length + 5 ≤ gmUdpMax) :
    labels.foldlM dnsPutLabel packet =
      if ∀ label ∈ labels, LabelFits label then
        some (packet ++ wireLabels labels)
      else none := by
  induction labels generalizing packet with
  | nil => simp [wireLabels]
  | cons label labels induction =>
    rw [wireLabels_cons] at room ⊢
    simp only [List.length_append, List.length_cons] at room
    rw [List.foldlM_cons, dnsPutLabel]
    by_cases fits : LabelFits label
    · have short : ¬ (label.length = 0 ∨ 63 < label.length ∨
          gmUdpMax < packet.length + 1 + label.length + 5) := by
        unfold LabelFits at fits
        omega
      rw [if_neg short]
      refine (induction ?_).trans ?_
      · simp only [List.length_append, List.length_cons]
        omega
      · simp [fits]
    · have long : label.length = 0 ∨ 63 < label.length ∨
          gmUdpMax < packet.length + 1 + label.length + 5 := by
        unfold LabelFits at fits
        omega
      rw [if_pos long, if_neg fun all => fits (all label List.mem_cons_self)]
      rfl

theorem dnsTrim_length (name : List UInt8) :
    (dnsTrim name).length ≤ name.length := by
  have shorter := (List.dropWhile_suffix (l := name.reverse) (· == 46)).length_le
  rw [List.length_reverse] at shorter
  rwa [dnsTrim, List.length_reverse]

/-- The labels of a name. -/
def dnsLabels (name : List UInt8) : List (List UInt8) :=
  (dnsTrim name).splitOn 46

theorem dnsLabels_ne_nil (name : List UInt8) : dnsLabels name ≠ [] :=
  List.splitOn_ne_nil 46 _

theorem dnsLabels_wire (name : List UInt8) :
    (wireLabels (dnsLabels name)).length = (dnsTrim name).length + 1 := by
  rw [wireLabels_length (dnsLabels_ne_nil name), dnsLabels,
    List.intercalate_splitOn]

theorem dot_notMem_splitOn (text : List UInt8) :
    ∀ label ∈ text.splitOn 46, 46 ∉ label := by
  induction text with
  | nil => simp
  | cons symbol rest induction =>
    obtain ⟨first, others, parts⟩ :=
      List.exists_cons_of_ne_nil (List.splitOn_ne_nil 46 rest)
    rw [List.splitOn_cons_eq_if_modifyHead]
    rw [parts, List.forall_mem_cons] at induction
    split
    · simpa [parts] using induction
    · rename_i other
      rw [parts, List.modifyHead_cons, List.forall_mem_cons, List.mem_cons]
      refine ⟨?_, induction.2⟩
      rintro (same | later)
      · exact other (beq_iff_eq.2 same.symm)
      · exact induction.1 later

/-- What `dns_build_query` accepts and makes of it. -/
theorem dnsBuildQuery_iff (name : List UInt8) (id : UInt16) :
    dnsBuildQuery name id = some packet ↔
      name.length ≤ dnsNameMax ∧ (∀ label ∈ dnsLabels name, LabelFits label) ∧
        packet = dnsHeader id ++ wireLabels (dnsLabels name) ++
          0 :: [0, 1, 0, 1] := by
  have short := dnsTrim_length name
  have wire := dnsLabels_wire name
  rw [dnsBuildQuery]
  by_cases long : dnsNameMax < name.length
  · simp [long, Nat.not_le.2 long]
  by_cases empty : dnsTrim name = []
  · have none : ¬ ∀ label ∈ dnsLabels name, LabelFits label := by
      simp [dnsLabels, empty, LabelFits, List.splitOn]
    simp [empty, none]
  have nonempty : name ≠ [] := by
    rintro rfl
    exact empty rfl
  have room : (dnsHeader id).length + (wireLabels (dnsLabels name)).length +
      5 ≤ gmUdpMax := by
    have header : (dnsHeader id).length = 12 := rfl
    simp only [dnsNameMax, gmUdpMax] at long ⊢
    omega
  rw [if_neg (by simp [nonempty, long]), if_neg empty, dnsPutLabels_eq]
  have labels : ((dnsTrim name).splitOn 46).modifyHead ([] ++ ·) =
      dnsLabels name :=
    congrFun List.modifyHead_id _
  rw [labels, foldlM_dnsPutLabel room]
  by_cases fit : ∀ label ∈ dnsLabels name, LabelFits label
  · have ending : [0] ++ dnsPut16 1 ++ dnsPut16 1 = [0, 0, 1, 0, 1] := by
      decide
    rw [if_pos fit, Option.map_some, List.append_assoc, List.append_assoc,
      ← List.append_assoc [0], ending, Option.some.injEq]
    simp only [Nat.not_lt.1 long, true_and]
    exact ⟨fun same => ⟨fit, same.symm⟩, fun same => same.2.symm⟩
  · simp [fit]

/-! ## Which names are accepted -/

/-- The names that RFC 1035 can encode. -/
def Encodable (name : List UInt8) : Prop :=
  ∃ labels, labels ≠ [] ∧ dnsTrim name = List.intercalate [46] labels ∧
    (∀ label ∈ labels, LabelFits label ∧ 46 ∉ label) ∧
    (wireLabels labels).length + 1 ≤ dnsNameMax

theorem encodable_iff (name : List UInt8) :
    Encodable name ↔ (∀ label ∈ dnsLabels name, LabelFits label) ∧
      (dnsTrim name).length ≤ 253 := by
  have wire := dnsLabels_wire name
  constructor
  · rintro ⟨labels, some', text, each, short⟩
    have same : dnsLabels name = labels := by
      rw [dnsLabels, text, List.splitOn_intercalate 46
        (fun label member => (each label member).2) some']
    rw [same] at wire ⊢
    refine ⟨fun label member => (each label member).1, ?_⟩
    unfold dnsNameMax at short
    omega
  · rintro ⟨fit, short⟩
    refine ⟨dnsLabels name, dnsLabels_ne_nil name,
      (List.intercalate_splitOn 46).symm, ?_, ?_⟩
    · exact fun label member =>
        ⟨fit label member, dot_notMem_splitOn _ label member⟩
    · unfold dnsNameMax
      omega

/-- A query is made for the names that can be encoded, and it carries them. -/
structure QueriesExactly (name : List UInt8) (id : UInt16) : Prop where
  accepts : (dnsBuildQuery name id).isSome ↔ Encodable name
  carries : ∀ packet, dnsBuildQuery name id = some packet → ∃ labels,
    packet = dnsHeader id ++ wireLabels labels ++ 0 :: [0, 1, 0, 1] ∧
    (∀ label ∈ labels, LabelFits label) ∧
    (wireLabels labels).length + 1 ≤ dnsNameMax

theorem isSome_dnsBuildQuery (name : List UInt8) (id : UInt16) :
    (dnsBuildQuery name id).isSome ↔
      name.length ≤ 255 ∧ ∀ label ∈ dnsLabels name, LabelFits label := by
  simp only [Option.isSome_iff_exists, dnsBuildQuery_iff, exists_and_left,
    exists_eq, and_true, dnsNameMax]

/-- The limit is set to the text before its trailing dots are removed: the
names accepted are the ones that can be encoded exactly where this agrees with
the limit of 253 for the text without them. -/
theorem dnsBuildQuery_exact (name : List UInt8) (id : UInt16) :
    QueriesExactly name id ↔
      ((∀ label ∈ dnsLabels name, LabelFits label) →
        (name.length ≤ 255 ↔ (dnsTrim name).length ≤ 253)) := by
  have accepts : ((dnsBuildQuery name id).isSome ↔ Encodable name) ↔
      ((∀ label ∈ dnsLabels name, LabelFits label) →
        (name.length ≤ 255 ↔ (dnsTrim name).length ≤ 253)) := by
    rw [isSome_dnsBuildQuery, encodable_iff, and_comm, and_congr_right_iff]
  rw [← accepts]
  refine ⟨QueriesExactly.accepts, fun exactly => ⟨exactly, ?_⟩⟩
  intro packet built
  obtain ⟨fit, short⟩ := (encodable_iff name).1
    (exactly.1 (Option.isSome_of_mem built))
  obtain ⟨_, _, same⟩ := (dnsBuildQuery_iff name id).1 built
  refine ⟨dnsLabels name, same, fit, ?_⟩
  rw [dnsLabels_wire, dnsNameMax]
  omega

/-- A name of 254 characters takes 256 octets. -/
def longName : List UInt8 :=
  List.replicate 63 97 ++ 46 :: List.replicate 63 97 ++
    46 :: List.replicate 63 97 ++ 46 :: List.replicate 62 97

theorem dnsBuildQuery_too_long :
    ∃ packet, dnsBuildQuery longName 1 = some packet ∧
      packet.length = 12 + 256 + 4 ∧ ¬Encodable longName := by
  have built : (dnsBuildQuery longName 1).map List.length = some 272 := by
    decide +kernel
  obtain ⟨packet, same, length⟩ := Option.map_eq_some_iff.1 built
  refine ⟨packet, same, length, fun encodable => ?_⟩
  have short := ((encodable_iff longName).1 encodable).2
  revert short
  decide +kernel

/-! ## Decoding -/

theorem dnsBuildQuery_length (built : dnsBuildQuery name id = some packet) :
    packet.length = (dnsTrim name).length + 18 := by
  obtain ⟨_, _, rfl⟩ := (dnsBuildQuery_iff name id).1 built
  have header : (dnsHeader id).length = 12 := rfl
  simp only [List.length_append, List.length_cons, List.length_nil, header,
    dnsLabels_wire]
  omega

/-- The name in the query. -/
theorem dnsBuildQuery_encoded (built : dnsBuildQuery name id = some packet) :
    EncodedName packet 12 0 (dnsLabels name) (packet.length - 4) := by
  have length := dnsBuildQuery_length built
  obtain ⟨_, fit, rfl⟩ := (dnsBuildQuery_iff name id).1 built
  have encoded := EncodedName.of_wire fit (dnsHeader id) [0, 1, 0, 1]
  have behind : (dnsHeader id).length +
      (wireLabels (dnsLabels name)).length + 1 =
        (dnsTrim name).length + 18 - 4 := by
    rw [dnsLabels_wire]
    change 12 + _ + 1 = _
    omega
  rw [behind] at encoded
  rw [length]
  exact encoded

theorem dotted_dnsLabels (name : List UInt8) :
    dotted (dnsLabels name) = dnsTrim name := by
  rw [dotted, if_neg (dnsLabels_ne_nil name)]
  exact List.intercalate_splitOn 46

/-- `dns_name` with the buffer of `dns_parse_response` reads this text from the
question of a packet, up to its type and class. -/
def Asks (packet text : List UInt8) : Prop :=
  ∀ (buffer : Window) (next : UInt16), buffer.limit = 256 → ∃ result,
    (∀ fuel, 33 * 65536 ≤ fuel →
      dnsName (.whole packet) (UInt16.ofNat packet.length) 12 buffer 256
        (some next) fuel = some (.ok result)) ∧
    result.returned = true ∧
    result.name.bytes.take (text.length + 1) = text ++ [0] ∧
    result.next.map UInt16.toNat = some (packet.length - 4)

theorem dnsBuildQuery_asks (built : dnsBuildQuery name id = some packet) :
    Asks packet (dnsTrim name) := by
  intro buffer next limit
  have size := dnsBuildQuery_length built
  have short := ((dnsBuildQuery_iff name id).1 built).1
  have shorter := dnsTrim_length name
  have encoded := dnsBuildQuery_encoded built
  unfold dnsNameMax at short
  have len : (UInt16.ofNat packet.length).toNat = packet.length := by
    rw [UInt16.toNat_ofNat']
    omega
  obtain ⟨result, ends, outcome⟩ := @dnsName_outcome packet _ 256 len
    (by decide) 12 buffer limit (some next) _ (Nat.le_refl _)
  have fits : (dotted (dnsLabels name)).length + 1 ≤ (256 : UInt16).toNat := by
    rw [dotted_dnsLabels]
    change _ ≤ 256
    omega
  refine ⟨result, fun fuel enough => ?_, outcome.accepts.2 ⟨_, _, _,
    (accepted_start buffer).2 ⟨encoded, by omega, fits⟩⟩, ?_⟩
  · obtain ⟨more, rfl⟩ := Nat.exists_eq_add_of_le enough
    exact dnsName_more ends more
  · rw [← dotted_dnsLabels]
    exact outcome.decoded encoded (by omega) fits

/-- What `dns_build_query` makes is decoded to the name without its trailing
dots, and so it is the same for no two names that differ in more. -/
theorem dnsBuildQuery_decodes (name : List UInt8) (id : UInt16)
    (packet : List UInt8) (built : dnsBuildQuery name id = some packet) :
    packet.length ≤ gmUdpMax ∧
      Asks packet (dnsTrim name) ∧
      packet.drop (packet.length - 4) = dnsPut16 1 ++ dnsPut16 1 ∧
      ∀ other, dnsBuildQuery other id = some packet →
        dnsTrim other = dnsTrim name := by
  have size := dnsBuildQuery_length built
  obtain ⟨short, fit, same⟩ := (dnsBuildQuery_iff name id).1 built
  have shorter := dnsTrim_length name
  refine ⟨?_, dnsBuildQuery_asks built, ?_, ?_⟩
  · unfold dnsNameMax at short
    unfold gmUdpMax
    omega
  · have cut : packet = dnsHeader id ++ wireLabels (dnsLabels name) ++ [0] ++
        (dnsPut16 1 ++ dnsPut16 1) := by
      rw [List.append_assoc _ [0]]
      exact same
    have place : packet.length - 4 =
        (dnsHeader id ++ wireLabels (dnsLabels name) ++ [0]).length := by
      rw [cut, List.length_append]
      rfl
    rw [place]
    rw [cut]
    exact List.drop_left
  · intro other builtOther
    have sizes := size.symm.trans (dnsBuildQuery_length builtOther)
    let buffer := Window.whole (List.replicate 256 0)
    have limit : buffer.limit = 256 := List.length_replicate
    obtain ⟨_, ends, _, text, _⟩ := dnsBuildQuery_asks built buffer 0 limit
    obtain ⟨_, endsOther, _, textOther, _⟩ :=
      dnsBuildQuery_asks builtOther buffer 0 limit
    cases (ends _ (Nat.le_refl _)).symm.trans (endsOther _ (Nat.le_refl _))
    rw [Nat.add_right_cancel sizes, textOther] at text
    exact List.append_cancel_right text

theorem dnsBuildQuery_decodes_dot :
    ∃ packet, dnsBuildQuery [97, 46, 98, 46] 1 = some packet ∧
      Asks packet [97, 46, 98] :=
  ⟨_, rfl, (dnsBuildQuery_decodes [97, 46, 98, 46] 1 _ rfl).2.1⟩

end Gmker.Dns
