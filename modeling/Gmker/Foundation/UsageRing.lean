import Mathlib.Algebra.BigOperators.Group.Finset.Basic
import Mathlib.Algebra.BigOperators.Group.Finset.Piecewise
import Mathlib.Data.List.Range
import Mathlib.Order.Interval.Finset.Nat

/-!
# Usage meters over a ring of buckets

Several meters share a ring of buckets.  A bucket belongs to one epoch at a
time, named by its tag, and is emptied for all meters when another epoch
claims it.  What the ring shows for an epoch never exceeds what was charged to
it, and agrees with it as long as no charge takes a bucket away from an epoch
that is still read.
-/

namespace Foundation

open Function

universe u

/-- The buckets of all meters.  A tag is an epoch plus one; a zero tag marks a
bucket that was never used. -/
@[ext] structure UsageRing (Meter : Type u) where
  tags : Nat → Nat
  fill : Meter → Nat → Nat

namespace UsageRing

variable {last : Nat} {ticks : List Nat}

variable {Meter : Type u} (buckets width : Nat)

/-- Claim the bucket of an epoch, unless it has it already. -/
def recycle (epoch : Nat) (ring : UsageRing Meter) : UsageRing Meter :=
  if ring.tags (epoch % buckets) = epoch + 1 then ring
  else
    { tags := update ring.tags (epoch % buckets) (epoch + 1)
      fill := fun meter =>
        update (ring.fill meter) (epoch % buckets) 0 }

/-- What a meter has in the bucket of an epoch, if that epoch has it. -/
def shown (ring : UsageRing Meter) (meter : Meter) (epoch : Nat) : Nat :=
  if ring.tags (epoch % buckets) = epoch + 1 then
    ring.fill meter (epoch % buckets)
  else 0

/-- The sum over all buckets that belong to the last epochs up to `now`. -/
def reading (ring : UsageRing Meter) (meter : Meter) (now : Nat) : Nat :=
  ∑ bucket ∈ Finset.range buckets,
    if ring.tags bucket ≠ 0 ∧ ring.tags bucket - 1 ≤ now / width ∧
        now / width - (ring.tags bucket - 1) < buckets then
      ring.fill meter bucket
    else 0

/-- The epochs a reading at epoch `last` covers. -/
def window (last : Nat) : Finset Nat :=
  (Finset.range (last + 1)).filter fun epoch => last < epoch + buckets

/-- Every used bucket belongs to an epoch of its own residue, and an unused
one is empty. -/
structure WellTagged (ring : UsageRing Meter) : Prop where
  residue : ∀ bucket < buckets, ∀ epoch,
    ring.tags bucket = epoch + 1 → epoch % buckets = bucket
  unused : ∀ bucket < buckets, ring.tags bucket = 0 →
    ∀ meter, ring.fill meter bucket = 0

variable {buckets width}

theorem recycle_tags (epoch : Nat) (ring : UsageRing Meter) :
    (ring.recycle buckets epoch).tags =
      update ring.tags (epoch % buckets) (epoch + 1) := by
  unfold recycle
  split
  · rename_i owned
    exact (update_eq_self_iff.mpr owned.symm).symm
  · rfl

theorem recycle_fill (epoch : Nat) (ring : UsageRing Meter) (meter : Meter) :
    (ring.recycle buckets epoch).fill meter =
      update (ring.fill meter) (epoch % buckets)
        (ring.shown buckets meter epoch) := by
  unfold recycle shown
  split
  · exact (update_eq_self _ _).symm
  · rfl

/-- The content of a bucket is what its epoch shows. -/
theorem WellTagged.fill_eq_shown {ring : UsageRing Meter}
    (tagged : ring.WellTagged buckets) {bucket : Nat}
    (inside : bucket < buckets) (meter : Meter) :
    ring.fill meter bucket = 0 ∨
      ∃ epoch, ring.fill meter bucket = ring.shown buckets meter epoch := by
  rcases Nat.eq_zero_or_pos (ring.tags bucket) with free | used
  · exact .inl (tagged.unused bucket inside free meter)
  · have owned : ring.tags bucket = (ring.tags bucket - 1) + 1 := by omega
    have residue := tagged.residue bucket inside _ owned
    refine .inr ⟨ring.tags bucket - 1, ?_⟩
    unfold shown
    rw [residue, if_pos owned]

theorem mem_window {last epoch : Nat} :
    epoch ∈ window buckets last ↔ epoch ≤ last ∧ last < epoch + buckets := by
  rw [window, Finset.mem_filter, Finset.mem_range]
  omega

/-- A reading is the sum of what the last epochs show. -/
theorem WellTagged.reading_eq {ring : UsageRing Meter}
    (tagged : ring.WellTagged buckets) (positive : 0 < buckets)
    (meter : Meter) (now : Nat) :
    ring.reading buckets width meter now =
      ∑ epoch ∈ window buckets (now / width),
        ring.shown buckets meter epoch := by
  have fibers := Finset.sum_fiberwise_of_maps_to
    (fun epoch (_ : epoch ∈ window buckets (now / width)) =>
      Finset.mem_range.mpr (Nat.mod_lt epoch positive))
    (fun epoch => ring.shown buckets meter epoch)
  rw [← fibers]
  refine Finset.sum_congr rfl ?_
  intro bucket member
  have inside := Finset.mem_range.mp member
  split
  · -- The epoch that has the bucket is the only one to show anything.
    rename_i covered
    obtain ⟨used, reached, recent⟩ := covered
    have owned : ring.tags bucket = (ring.tags bucket - 1) + 1 := by omega
    have residue := tagged.residue bucket inside _ owned
    have present : ring.tags bucket - 1 ∈
        (window buckets (now / width)).filter (· % buckets = bucket) := by
      rw [Finset.mem_filter, mem_window]
      exact ⟨⟨reached, by omega⟩, residue⟩
    rw [Finset.sum_eq_single_of_mem _ present]
    · unfold shown
      rw [residue, if_pos owned]
    · intro epoch other different
      unfold shown
      rw [(Finset.mem_filter.mp other).2, if_neg (by omega)]
  · rename_i outside
    symm
    apply Finset.sum_eq_zero
    intro epoch other
    obtain ⟨inWindow, residue⟩ := Finset.mem_filter.mp other
    rw [mem_window] at inWindow
    unfold shown
    rw [residue, if_neg]
    intro owned
    exact outside ⟨by omega, by omega, by omega⟩

/-! ## Exact meters -/

/-- The last epochs of a meter show exactly some usage, and no usage lies in
the future. -/
structure Exact (buckets : Nat) (ring : UsageRing Meter) (meter : Meter)
    (last : Nat) (usage : Nat → Nat) : Prop where
  shown : ∀ epoch, last < epoch + buckets →
    ring.shown buckets meter epoch = usage epoch
  future : ∀ epoch, last < epoch → usage epoch = 0

theorem Exact.later {ring : UsageRing Meter} {meter : Meter} {last next : Nat}
    {usage : Nat → Nat} (exact : Exact buckets ring meter last usage)
    (order : last ≤ next) : Exact buckets ring meter next usage where
  shown epoch recent := exact.shown epoch (by omega)
  future epoch ahead := exact.future epoch (by omega)

/-- Only the usage of the epochs that are read matters. -/
theorem Exact.congr {ring : UsageRing Meter} {meter : Meter}
    {usage other : Nat → Nat} (exact : Exact buckets ring meter last usage)
    (same : ∀ epoch, last < epoch + buckets → other epoch = usage epoch) :
    Exact buckets ring meter last other where
  shown epoch recent := (exact.shown epoch recent).trans (same epoch recent).symm
  future epoch ahead :=
    (same epoch (by omega)).trans (exact.future epoch ahead)

/-! ## Charging -/

section Charging

variable [DecidableEq Meter]

variable (buckets) in
/-- Charge some ticks of one epoch to a meter. -/
def charge (meter : Meter) (ring : UsageRing Meter) (piece : Nat × Nat) :
    UsageRing Meter :=
  let claimed := ring.recycle buckets piece.1
  let bucket := piece.1 % buckets
  { tags := claimed.tags
    fill := update claimed.fill meter
      (update (claimed.fill meter) bucket
        (claimed.fill meter bucket + piece.2)) }

variable (buckets) in
/-- Charge one piece after the other. -/
def chargeAll (meter : Meter) (ring : UsageRing Meter)
    (pieces : List (Nat × Nat)) : UsageRing Meter :=
  pieces.foldl (charge buckets meter) ring

theorem charge_tags (charged : Meter) (ring : UsageRing Meter)
    (piece : Nat × Nat) :
    (ring.charge buckets charged piece).tags =
      update ring.tags (piece.1 % buckets) (piece.1 + 1) :=
  recycle_tags piece.1 ring

theorem charge_fill (charged : Meter) (ring : UsageRing Meter)
    (piece : Nat × Nat) (meter : Meter) :
    (ring.charge buckets charged piece).fill meter =
      update (ring.fill meter) (piece.1 % buckets)
        (ring.shown buckets meter piece.1 +
          if meter = charged then piece.2 else 0) := by
  unfold charge
  dsimp only
  by_cases own : meter = charged
  · subst own
    rw [update_self, recycle_fill, update_self,
      update_idem, if_pos rfl]
  · rw [update_of_ne own, recycle_fill, if_neg own, Nat.add_zero]

/-- A charged epoch has its bucket; other epochs of that bucket show nothing
any more. -/
theorem shown_charge (charged : Meter) (ring : UsageRing Meter)
    (piece : Nat × Nat) (meter : Meter) (epoch : Nat) :
    (ring.charge buckets charged piece).shown buckets meter epoch =
      if epoch = piece.1 then
        ring.shown buckets meter epoch + if meter = charged then piece.2 else 0
      else if epoch % buckets = piece.1 % buckets then 0
      else ring.shown buckets meter epoch := by
  unfold shown
  rw [charge_tags, charge_fill]
  by_cases same : epoch % buckets = piece.1 % buckets
  · rw [same, update_self, update_self, if_pos rfl]
    by_cases here : epoch = piece.1
    · rw [here, if_pos rfl, if_pos rfl]
      rfl
    · rw [if_neg here, if_neg (fun claimed => here (by omega))]
  · have elsewhere : epoch ≠ piece.1 := fun here => same (by rw [here])
    rw [update_of_ne same, update_of_ne same,
      if_neg elsewhere, if_neg same]

theorem WellTagged.charge {ring : UsageRing Meter}
    (tagged : ring.WellTagged buckets) (charged : Meter)
    (piece : Nat × Nat) :
    (ring.charge buckets charged piece).WellTagged buckets := by
  constructor
  · intro bucket inside epoch owned
    rw [charge_tags] at owned
    by_cases same : bucket = piece.1 % buckets
    · rw [same, update_self] at owned
      rw [same, show epoch = piece.1 by omega]
    · rw [update_of_ne same] at owned
      exact tagged.residue bucket inside epoch owned
  · intro bucket inside free meter
    rw [charge_tags] at free
    by_cases same : bucket = piece.1 % buckets
    · rw [same, update_self] at free
      omega
    · rw [update_of_ne same] at free
      rw [charge_fill, update_of_ne same]
      exact tagged.unused bucket inside free meter

theorem WellTagged.chargeAll {ring : UsageRing Meter}
    (tagged : ring.WellTagged buckets) (charged : Meter)
    (pieces : List (Nat × Nat)) :
    (ring.chargeAll buckets charged pieces).WellTagged buckets := by
  induction pieces generalizing ring with
  | nil => exact tagged
  | cons piece pieces induction => exact induction (tagged.charge charged piece)

/-- The ticks of one epoch in a list of pieces. -/
def amount : List (Nat × Nat) → Nat → Nat
  | [], _ => 0
  | piece :: pieces, epoch =>
    (if epoch = piece.1 then piece.2 else 0) + amount pieces epoch

@[simp] theorem amount_nil (epoch : Nat) : amount [] epoch = 0 := rfl

@[simp] theorem amount_cons (piece : Nat × Nat) (pieces : List (Nat × Nat))
    (epoch : Nat) :
    amount (piece :: pieces) epoch =
      (if epoch = piece.1 then piece.2 else 0) + amount pieces epoch := rfl

/-- The part of the pieces that goes to a meter. -/
def share (charged : Meter) (pieces : List (Nat × Nat)) (meter : Meter)
    (epoch : Nat) : Nat :=
  if meter = charged then amount pieces epoch else 0

/-- Charging never shows more than was there and was charged. -/
theorem shown_charge_le (charged : Meter) (ring : UsageRing Meter)
    (piece : Nat × Nat) (meter : Meter) (epoch : Nat) :
    (ring.charge buckets charged piece).shown buckets meter epoch ≤
      ring.shown buckets meter epoch +
        share charged [piece] meter epoch := by
  rw [shown_charge]
  simp only [share, amount_cons, amount_nil, Nat.add_zero]
  split
  · exact Nat.le_refl _
  · split
    · exact Nat.zero_le _
    · exact Nat.le_add_right _ _

theorem share_cons (charged : Meter) (piece : Nat × Nat)
    (pieces : List (Nat × Nat)) (meter : Meter) (epoch : Nat) :
    share charged (piece :: pieces) meter epoch =
      share charged [piece] meter epoch +
        share charged pieces meter epoch := by
  simp only [share, amount_cons, amount_nil, Nat.add_zero]
  split <;> rfl

theorem shown_chargeAll_le (charged : Meter) (ring : UsageRing Meter)
    (pieces : List (Nat × Nat)) (meter : Meter) (epoch : Nat) :
    (ring.chargeAll buckets charged pieces).shown buckets meter epoch ≤
      ring.shown buckets meter epoch + share charged pieces meter epoch := by
  induction pieces generalizing ring with
  | nil => exact Nat.le_add_right _ _
  | cons piece pieces induction =>
    have step : (ring.charge buckets charged piece).shown buckets meter epoch
        ≤ ring.shown buckets meter epoch +
          share charged [piece] meter epoch :=
      shown_charge_le charged ring piece meter epoch
    have later := induction (ring.charge buckets charged piece)
    rw [share_cons]
    rw [chargeAll, List.foldl_cons]
    exact le_trans later (by omega)

/-- Two epochs of one bucket are a round of the ring apart. -/
private theorem round_apart {first second : Nat} (before : first < second)
    (same : second % buckets = first % buckets) : first + buckets ≤ second := by
  have multiple : buckets ∣ second - first :=
    Nat.dvd_of_mod_eq_zero (Nat.sub_mod_eq_zero_of_mod_eq same)
  have bound := Nat.le_of_dvd (by omega) multiple
  omega

/-- One charge keeps a meter exact if the epoch it claims the bucket for is
still read, or if nothing has been used in the current one. -/
theorem Exact.charge {ring : UsageRing Meter} {meter : Meter}
    {usage : Nat → Nat} (exact : Exact buckets ring meter last usage)
    (charged : Meter) {piece : Nat × Nat} (past : piece.1 ≤ last)
    (reach : last ≤ piece.1 + buckets)
    (safe : last < piece.1 + buckets ∨ usage last = 0) :
    Exact buckets (ring.charge buckets charged piece) meter last
      (fun epoch => usage epoch + share charged [piece] meter epoch) := by
  constructor
  · intro epoch recent
    rw [shown_charge]
    simp only [share, amount_cons, amount_nil, Nat.add_zero]
    by_cases here : epoch = piece.1
    · rw [if_pos here, if_pos here, exact.shown epoch recent]
    · rw [if_neg here, if_neg here, ite_self, Nat.add_zero]
      split
      · -- Another epoch of the bucket is the current one or a future one.
        rename_i same
        have later : last ≤ epoch := by
          rcases Nat.lt_or_gt_of_ne here with before | after
          · have apart := round_apart before same.symm
            omega
          · have apart := round_apart after same
            omega
        rcases Nat.lt_or_eq_of_le later with future | current
        · exact (exact.future epoch future).symm
        · rcases safe with read | empty
          · have apart := round_apart (by omega) same
            omega
          · rw [← current]
            exact empty.symm
      · exact exact.shown epoch recent
  · intro epoch later
    simp only [share, amount_cons, amount_nil, Nat.add_zero]
    have different : epoch ≠ piece.1 := by omega
    rw [exact.future epoch later, if_neg different, ite_self]

/-- Charging pieces of ascending epochs keeps a meter exact: only the first of
them can be a whole round behind the current epoch. -/
theorem Exact.chargeAll {ring : UsageRing Meter} {meter : Meter}
    {usage : Nat → Nat} (exact : Exact buckets ring meter last usage)
    (charged : Meter) {pieces : List (Nat × Nat)}
    (ascending : pieces.Pairwise fun first second => first.1 < second.1)
    (past : ∀ piece ∈ pieces, piece.1 ≤ last)
    (reach : ∀ piece ∈ pieces, last ≤ piece.1 + buckets)
    (safe : (∀ piece ∈ pieces, last < piece.1 + buckets) ∨ usage last = 0) :
    Exact buckets (ring.chargeAll buckets charged pieces) meter last
      (fun epoch => usage epoch + share charged pieces meter epoch) := by
  induction pieces generalizing ring usage with
  | nil =>
    have nothing : ∀ epoch, share charged [] meter epoch = 0 := by
      intro epoch
      simp only [share, amount_nil, ite_self]
    simp only [nothing, Nat.add_zero]
    exact exact
  | cons piece pieces induction =>
    obtain ⟨above, rest⟩ := List.pairwise_cons.mp ascending
    have first := exact.charge charged (past piece List.mem_cons_self)
      (reach piece List.mem_cons_self)
      (safe.imp_left fun read => read piece List.mem_cons_self)
    have later := induction first rest
      (fun other member => past other (List.mem_cons_of_mem _ member))
      (fun other member => reach other (List.mem_cons_of_mem _ member))
      (.inl fun other member => by
        have behind := reach piece List.mem_cons_self
        have ahead := above other member
        omega)
    have shares : (fun epoch =>
        usage epoch + share charged (piece :: pieces) meter epoch) =
        fun epoch => usage epoch + share charged [piece] meter epoch +
          share charged pieces meter epoch := by
      funext epoch
      rw [share_cons, Nat.add_assoc]
    rw [shares]
    exact later

end Charging

/-! ## Usage as a list of ticks -/

/-- The number of ticks that fall into an epoch. -/
def usage (width : Nat) (ticks : List Nat) (epoch : Nat) : Nat :=
  ticks.countP fun tick => tick / width = epoch

theorem usage_append (left right : List Nat) (epoch : Nat) :
    usage width (left ++ right) epoch =
      usage width left epoch + usage width right epoch :=
  List.countP_append

theorem usage_eq_zero {epoch : Nat}
    (elsewhere : ∀ tick ∈ ticks, tick / width ≠ epoch) :
    usage width ticks epoch = 0 := by
  apply List.countP_eq_zero.mpr
  intro tick member found
  exact elsewhere tick member (of_decide_eq_true found)

theorem usage_of_same {only : Nat} (same : ∀ tick ∈ ticks, tick / width = only)
    (epoch : Nat) :
    usage width ticks epoch = if epoch = only then ticks.length else 0 := by
  split
  · rename_i here
    apply List.countP_eq_length.mpr
    intro tick member
    exact decide_eq_true ((same tick member).trans here.symm)
  · rename_i elsewhere
    apply usage_eq_zero
    intro tick member found
    exact elsewhere (found.symm.trans (same tick member))

/-- Distinct ticks in a stretch of time are at most as many as it is long. -/
theorem length_le_of_nodup (distinct : ticks.Nodup) {low high : Nat}
    (within : ∀ tick ∈ ticks, low ≤ tick ∧ tick < high) :
    ticks.length ≤ high - low := by
  have inside : ticks.toFinset ⊆ Finset.Ico low high := by
    intro tick member
    exact Finset.mem_Ico.mpr (within tick (List.mem_toFinset.mp member))
  have bound := Finset.card_le_card inside
  rwa [List.toFinset_card_of_nodup distinct, Nat.card_Ico] at bound

theorem usage_le_width (positive : 0 < width) (distinct : ticks.Nodup)
    (epoch : Nat) : usage width ticks epoch ≤ width := by
  unfold usage
  rw [List.countP_eq_length_filter]
  have within : ∀ tick ∈ ticks.filter fun tick => tick / width = epoch,
      epoch * width ≤ tick ∧ tick < epoch * width + width := by
    intro tick member
    have here : tick / width = epoch :=
      of_decide_eq_true (List.mem_filter.mp member).2
    have lower := Nat.div_mul_le_self tick width
    have upper : tick < tick / width * width + width :=
      Nat.lt_div_mul_add positive
    rw [here] at lower upper
    exact ⟨lower, upper⟩
  have bound := length_le_of_nodup (distinct.filter _) within
  omega

/-- The usage of a window of epochs counts the ticks that fall into it. -/
theorem sum_usage (ticks : List Nat) (epochs : Finset Nat) :
    ∑ epoch ∈ epochs, usage width ticks epoch =
      ticks.countP fun tick => tick / width ∈ epochs := by
  induction ticks with
  | nil => exact Finset.sum_const_zero
  | cons tick ticks induction =>
    have split : ∀ epoch, usage width (tick :: ticks) epoch =
        usage width ticks epoch + if tick / width = epoch then 1 else 0 := by
      intro epoch
      unfold usage
      rw [List.countP_cons]
      simp only [decide_eq_true_eq]
    simp only [split]
    rw [Finset.sum_add_distrib, induction, Finset.sum_ite_eq,
      List.countP_cons]
    simp only [decide_eq_true_eq]

/-! ## A stretch of time, epoch by epoch -/

variable (width) in
/-- The stretch from `start` to `now`, cut at the borders of the epochs. -/
def pieces (now : Nat) : Nat → Nat → List (Nat × Nat)
  | 0, _ => []
  | fuel + 1, start =>
    if start < now then
      let finish := min ((start / width + 1) * width) now
      (start / width, finish - start) :: pieces now fuel finish
    else []

theorem mem_pieces (positive : 0 < width) {now : Nat} {piece : Nat × Nat} :
    ∀ fuel start, piece ∈ pieces width now fuel start →
      start < now ∧ start / width ≤ piece.1 ∧ piece.1 ≤ now / width := by
  intro fuel
  induction fuel with
  | zero =>
    intro start member
    cases member
  | succ fuel induction =>
    intro start member
    rw [pieces] at member
    split at member
    · rename_i before
      have order : start / width ≤ now / width :=
        Nat.div_le_div_right (Nat.le_of_lt before)
      rcases List.mem_cons.mp member with rfl | later
      · exact ⟨before, Nat.le_refl _, order⟩
      · obtain ⟨short, low, high⟩ := induction _ later
        refine ⟨before, ?_, high⟩
        refine le_trans (Nat.div_le_div_right ?_) low
        have border : start < start / width * width + width :=
          Nat.lt_div_mul_add positive
        rw [Nat.succ_mul]
        omega
    · cases member

theorem pieces_ascending (positive : 0 < width) (now : Nat) :
    ∀ fuel start, (pieces width now fuel start).Pairwise
      fun first second => first.1 < second.1 := by
  intro fuel
  induction fuel with
  | zero =>
    intro start
    exact List.Pairwise.nil
  | succ fuel induction =>
    intro start
    rw [pieces]
    split
    · refine List.pairwise_cons.mpr ⟨?_, induction _⟩
      intro later member
      obtain ⟨short, low, -⟩ := mem_pieces positive _ _ member
      -- The next piece starts at the border of an epoch.
      have border : min ((start / width + 1) * width) now =
          (start / width + 1) * width := by omega
      rw [border, Nat.mul_div_cancel _ positive] at low
      exact low
    · exact List.Pairwise.nil

theorem pieces_length (positive : 0 < width) (now : Nat) :
    ∀ fuel start, start / width + (pieces width now fuel start).length ≤
      max (start / width) ((now - 1) / width + 1) := by
  intro fuel
  induction fuel with
  | zero =>
    intro start
    exact Nat.le_max_left _ _
  | succ fuel induction =>
    intro start
    rw [pieces]
    split
    · rename_i before
      have order : start / width ≤ (now - 1) / width :=
        Nat.div_le_div_right (by omega)
      rw [List.length_cons]
      by_cases border : (start / width + 1) * width < now
      · have later := induction ((start / width + 1) * width)
        have order : start / width + 1 ≤ (now - 1) / width :=
          (Nat.le_div_iff_mul_le positive).mpr (by omega)
        rw [Nat.mul_div_cancel _ positive] at later
        rw [Nat.min_eq_left (Nat.le_of_lt border)]
        omega
      · have done : pieces width now fuel now = [] := by
          cases fuel with
          | zero => rfl
          | succ fuel => rw [pieces, if_neg (Nat.lt_irrefl now)]
        rw [Nat.min_eq_right (Nat.le_of_not_lt border), done]
        rw [List.length_nil]
        omega
    · exact Nat.le_max_left _ _

/-- The pieces account for every tick of the stretch. -/
theorem amount_pieces (positive : 0 < width) {now : Nat} (epoch : Nat) :
    ∀ fuel start, now - start ≤ fuel →
      amount (pieces width now fuel start) epoch =
        usage width (List.range' start (now - start)) epoch := by
  intro fuel
  induction fuel with
  | zero =>
    intro start enough
    rw [show now - start = 0 by omega]
    rfl
  | succ fuel induction =>
    intro start enough
    rw [pieces]
    split
    · rename_i before
      have border : start < start / width * width + width :=
        Nat.lt_div_mul_add positive
      have floor := Nat.div_mul_le_self start width
      have next : (start / width + 1) * width =
          start / width * width + width := Nat.succ_mul _ _
      generalize finishEq : min ((start / width + 1) * width) now = finish
      have split : List.range' start (now - start) =
          List.range' start (finish - start) ++
            List.range' finish (now - finish) := by
        rw [show now - start = (finish - start) + (now - finish) by omega,
          ← List.range'_append_1,
          show start + (finish - start) = finish by omega]
      have block : usage width (List.range' start (finish - start)) epoch =
          if epoch = start / width then finish - start else 0 := by
        have same : ∀ tick ∈ List.range' start (finish - start),
            tick / width = start / width := by
          intro tick member
          obtain ⟨low, high⟩ := List.mem_range'_1.mp member
          exact Nat.div_eq_of_lt_le (by omega) (by omega)
        rw [usage_of_same same, List.length_range']
      dsimp only
      rw [amount_cons, split, usage_append, block,
        induction finish (by omega)]
    · rw [show now - start = 0 by omega]
      rfl

end UsageRing

end Foundation
