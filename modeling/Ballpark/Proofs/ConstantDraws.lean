import Ballpark.Proofs.Interval
import Ballpark.Proofs.Mean
import Ballpark.Proofs.UnitRefusal

/-!
# Constants have values

Over exact numbers no constant fails to be drawn, whatever the random numbers are. The text of its unit is
made of names that are known, of numbers above zero and of whole powers, so it writes an expression of the
grammar and has a unit (`CompoundUnit.ofText_of_plain`); and the parameters in the table are those that the
samplers take: bounds in order, deviations and weights that are not below zero (`Constant.table_drawable`).
-/

namespace Ballpark

/-! ## Plain units -/

namespace UnitToken

/-- Does a token stand for something whatever it is next to: a name that is known, a whole number above
zero, or a mark other than a parenthesis? -/
def isPlain : UnitToken → Bool
  | .name text => (UnitName.resolve? text).isSome
  | .number text => decide (0 < (Decimal.ofText text).value) && (Decimal.ofText text).value.den == 1
  | .mark m => m != "("

/-- The tokens of the unit that a text writes, if it can be taken apart. -/
def tokens (text : String) : List UnitToken :=
  match UnitToken.ofText (R := ℝ) (Text.trimText text) with
  | .ok tokens => tokens
  | .error _ => []

theorem whole_of_isPlain {text : String} (h : (number text).isPlain = true) :
    0 < (Decimal.ofText text).value ∧ ∃ k : Int, (Decimal.ofText text).value = k := by
  rw [isPlain, Bool.and_eq_true, decide_eq_true_iff, beq_iff_eq] at h
  exact ⟨h.1, (Decimal.ofText text).value.num, (Rat.coe_int_num_of_den_eq_one h.2).symm⟩

theorem not_isPlain_opening : ¬(mark "(").isPlain = true := by
  decide

theorem IsExponent.exists_whole {tokens : List UnitToken} (h : IsExponent tokens)
    (hplain : ∀ token ∈ tokens, token.isPlain = true) : ∃ k : Int, UnitTree.WritesExponent k tokens := by
  cases h with
  | number =>
    obtain ⟨k, hk⟩ := (whole_of_isPlain (hplain _ List.mem_cons_self)).2
    exact ⟨k, .number hk⟩
  | negative =>
    obtain ⟨k, hk⟩ := (whole_of_isPlain (hplain _ (List.mem_cons_of_mem _ List.mem_cons_self))).2
    exact ⟨-k, .negative hk⟩
  | enclosed | ratio => exact absurd (hplain _ List.mem_cons_self) not_isPlain_opening

/-- A sentence of plain tokens writes an expression that means something. -/
theorem IsSentence.exists_tree {level : UnitTree.Level} {tokens : List UnitToken}
    (h : IsSentence level tokens) (hplain : ∀ token ∈ tokens, token.isPlain = true) :
    ∃ t : UnitTree, t.Writes level tokens := by
  induction h with
  | name =>
    obtain ⟨meaning, hmeaning⟩ := Option.isSome_iff_exists.mp (hplain _ List.mem_cons_self)
    exact ⟨.name _ meaning hmeaning, .name⟩
  | number => exact ⟨.number _ (whole_of_isPlain (hplain _ List.mem_cons_self)).1, .number⟩
  -- parentheses are no plain tokens
  | enclosed => exact absurd (hplain _ List.mem_cons_self) not_isPlain_opening
  | atom _ ih => exact (ih hplain).imp fun _ => .atom
  -- the exponent is a sentence of its own and stands for a whole number
  | raised _ hmark hexponent ih =>
    obtain ⟨hbase, hraised⟩ := List.forall_mem_append.mp hplain
    obtain ⟨t, ht⟩ := ih hbase
    obtain ⟨k, hk⟩ := hexponent.exists_whole (List.forall_mem_cons.mp hraised).2
    exact ⟨_, ht.raised hmark hk⟩
  | power _ ih => exact (ih hplain).imp fun _ => .power
  | times _ hmark _ ihleft ihright =>
    obtain ⟨hleft, hright⟩ := List.forall_mem_append.mp hplain
    obtain ⟨s, hs⟩ := ihleft hleft
    obtain ⟨t, ht⟩ := ihright (List.forall_mem_cons.mp hright).2
    exact ⟨_, hs.times hmark ht⟩
  | beside _ _ ihleft ihright =>
    obtain ⟨hleft, hright⟩ := List.forall_mem_append.mp hplain
    obtain ⟨s, hs⟩ := ihleft hleft
    obtain ⟨t, ht⟩ := ihright hright
    exact ⟨_, hs.beside ht⟩
  | product _ ih => exact (ih hplain).imp fun _ => .product
  | divided _ _ ihabove ihbelow =>
    obtain ⟨habove, hbelow⟩ := List.forall_mem_append.mp hplain
    obtain ⟨s, hs⟩ := ihabove habove
    obtain ⟨t, ht⟩ := ihbelow (List.forall_mem_cons.mp hbelow).2
    exact ⟨_, hs.divided ht⟩

end UnitToken

/-- **A plain text has a unit.** -/
theorem CompoundUnit.ofText_of_plain {text : String} (hrun : UnitToken.readsAsRun text = true)
    (hplain : ∀ token ∈ UnitToken.tokens text, token.isPlain = true) :
    ∃ u scale, CompoundUnit.ofText text = .ok ((u, scale) : CompoundUnit ℝ × ℝ) := by
  rw [UnitToken.tokens] at hplain
  rw [UnitToken.readsAsRun, Bool.or_eq_true] at hrun
  rw [ofText]
  rcases hrun with hblank | hrun
  · exact ⟨_, _, if_pos hblank⟩
  split
  · exact ⟨_, _, rfl⟩
  split at hrun
  · rename_i tokens htokens
    rw [htokens] at hplain
    have hsentence : UnitToken.IsSentence .quotient tokens :=
      (UnitToken.ReadTo.expecting UnitToken.awaits_nil).isSentence hrun
    obtain ⟨t, ht⟩ := hsentence.exists_tree hplain
    obtain ⟨a, hmeans, hall⟩ := UnitReader.all_of_writes (Text.trimText text) ht
    obtain ⟨u, scale, hcanonical, -⟩ := canonicalize_spec hmeans.known
    refine ⟨u, a.scale * scale, ?_⟩
    simp only [htokens, hall, hcanonical, bind, Except.bind, pure, Except.pure]
  · cases hrun

/-- The units of the constants are made of a few plain tokens. -/
theorem Constant.table_plain : (((table (R := ℝ)).map (·.2.unitText)).flatMap
    UnitToken.tokens).eraseDups.all UnitToken.isPlain = true := by
  decide +kernel

/-! ## Draws that never fail -/

section

variable {S : Type} {α β : Type}

/-- A computation that gives a result from every source. -/
abbrev Draw.Total (d : Draw ℝ S α) : Prop :=
  Keeps (fun _ => True) d (fun _ => True) fun _ => False

namespace Draw.Total

theorem of_ok {e : Except (Fault ℝ) α} {a : α} (h : e = .ok a) : Total (ofExcept e : Draw ℝ S α) :=
  fun _ _ => ⟨h ▸ .ok trivial, trivial⟩

theorem lift (x : StateM S α) : Total (ExceptT.lift x : Draw ℝ S α) :=
  Keeps.lift fun _ _ => ⟨trivial, trivial⟩

theorem require {c : Bool} (h : c = true) (p : ParameterFault ℝ) :
    Total (Draw.require c p : Draw ℝ S PUnit) :=
  .of_ok (if_pos h)

/-- Real parameters are finite. -/
theorem requireFinite (sampler : String) (xs : List ℝ) :
    Total (Draw.requireFinite sampler xs : Draw ℝ S PUnit) :=
  .require (List.all_eq_true.mpr fun _ _ => rfl) _

theorem bind {d : Draw ℝ S α} {f : α → Draw ℝ S β} (hd : Total d) (hf : ∀ a, Total (f a)) :
    Total (d >>= f) :=
  Keeps.bind hd fun a _ => hf a

/-- A sample gets its unit. -/
theorem finish {frame : SampleFrame ℝ} (h : ∀ x, ∃ q, frame.unit.apply x = .ok q) (x : Sample ℝ) :
    Total (frame.finish x : Draw ℝ S (Quantity ℝ)) :=
  .of_ok (h x).choose_spec

/-- A result and the source that is left. -/
theorem exists_run {d : Draw ℝ S α} (h : Total d) (s : S) : ∃ a t, d.run s = (.ok a, t) := by
  have hend := (h s trivial).1
  rcases hrun : d.run s with ⟨e | a, t⟩
  · rw [hrun] at hend
    exact (hend.of_error rfl).elim
  · exact ⟨a, t, rfl⟩

end Draw.Total

end

namespace Sampler

open Draw

variable {S : Type} [RandomSource S ℝ] {frame : SampleFrame ℝ} {n : SampleCount}
  (hcount : frame.count = .ok n) (hunit : ∀ x, ∃ q, frame.unit.apply x = .ok q)
include hcount hunit

theorem plusMinus_total {mean deviation : ℝ} (h : 0 ≤ deviation) :
    Total (plusMinus mean deviation frame : Draw ℝ S (Quantity ℝ)) := by
  have hdeviation : Scalar.isNonnegative deviation = true := by simpa using h
  refine (Total.requireFinite _ _).bind fun _ => (Total.require hdeviation _).bind fun _ => ?_
  exact (Total.of_ok hcount).bind fun n => (Total.lift _).bind fun z => .finish hunit _

theorem lognormal_total {a b : ℝ} (ha : 0 < a) (hab : a < b) {confidence : Written ℝ}
    (hmass : IsMass confidence) : Total (lognormal a b confidence frame : Draw ℝ S (Quantity ℝ)) := by
  have hb := ha.trans hab
  have hpositive : (Scalar.isPositive a && Scalar.isPositive b) = true := by simp [ha, hb]
  have horder : Scalar.lt a b = true := by simpa using hab
  have hspread : (do Checked.div (← Checked.log (← Checked.sqrt (b / a))) (← centralBound confidence)) =
      (.ok (Real.log √(b / a) / (√2 * erfInv confidence.toScalar)) : Except (Fault ℝ) ℝ) := by
    rw [← bind_assoc, log_sqrt (div_pos hb ha), centralBound_eq hmass]
    exact Checked.div_of_ne_zero (centralBound_pos hmass).ne'
  refine (Total.requireFinite _ _).bind fun _ => (Total.require hpositive _).bind fun _ => ?_
  refine (Total.require horder _).bind fun _ => (Total.of_ok hcount).bind fun n => ?_
  refine (Total.of_ok (log_sqrt (mul_pos ha hb))).bind fun center => (Total.of_ok hspread).bind fun c => ?_
  exact (Total.lift _).bind fun z => .finish hunit _

theorem weighted_total {values weights : List ℝ} (hsome : values ≠ [])
    (hlength : values.length = weights.length) (hweights : ∀ w ∈ weights, 0 ≤ w)
    (hsum : 0 < weights.sum) : Total (weighted values weights frame : Draw ℝ S (Quantity ℝ)) := by
  have hnonnegative : weights.all Scalar.isNonnegative = true :=
    List.all_eq_true.mpr fun w hw => by simpa using hweights w hw
  have hpositive : Scalar.isPositive (Scalar.total weights) = true := by
    rw [Scalar.total_eq_sum]
    simpa using hsum
  rcases values with _ | ⟨first, rest⟩
  · exact absurd rfl hsome
  refine (Total.require (beq_iff_eq.mpr hlength) _).bind fun _ => (Total.requireFinite _ _).bind fun _ => ?_
  refine (Total.require hnonnegative _).bind fun _ => (Total.require hpositive _).bind fun _ => ?_
  exact (Total.of_ok hcount).bind fun n => (Total.lift _).bind fun u => .finish hunit _

end Sampler

/-! ## The table -/

namespace Constant

/-- The parameters of a constant are such as its sampler takes. -/
def Drawable : Constant ℝ → Prop
  | .exact .. => True
  | .plusMinus _ deviation _ => 0 ≤ deviation
  | .interval low high _ => 0 < low ∧ low < high
  | .oneOf values weights _ =>
    values ≠ [] ∧ values.length = weights.length ∧ (∀ w ∈ weights, 0 ≤ w) ∧ 0 < weights.sum

theorem table_drawable : ∀ entry ∈ table (R := ℝ), entry.2.Drawable := by
  simp only [table, List.forall_mem_cons, exactly, measured, spread, weighted, Drawable,
    Scalar.ofRat_real, List.map_cons, List.map_nil, ne_eq, reduceCtorEq]
  norm_num

/-- **Every constant of the table can be drawn.** -/
theorem draw_total {S : Type} [RandomSource S ℝ] {key : String} {constant : Constant ℝ}
    (h : (key, constant) ∈ table (R := ℝ)) {confidence : Written ℝ} (hmass : Sampler.IsMass confidence)
    (n : SampleCount) : Draw.Total (constant.draw confidence (.ok n) : Draw ℝ S (Quantity ℝ)) := by
  have htext := List.mem_map_of_mem (f := (·.2.unitText)) h
  obtain ⟨u, scale, hread⟩ := CompoundUnit.ofText_of_plain (List.all_eq_true.mp table_readsAsRun _ htext)
    fun token htoken => List.all_eq_true.mp table_plain token
      (List.mem_eraseDups.mpr (List.mem_flatMap_of_mem htext htoken))
  have hvalue : ∀ value : Value ℝ, ∃ q, Quantity.ofText value constant.unitText = .ok q := by
    intro value
    exact ⟨⟨value.map (· * scale), u⟩, by rw [Quantity.ofText, hread]; rfl⟩
  have hunit : ∀ x, ∃ q, (UnitChoice.text constant.unitText).apply x = .ok q := fun x => hvalue (.sample x)
  have hdrawable := table_drawable _ h
  -- each way that a constant is drawn asks for what the table has been decided to give it
  cases constant with
  | exact value unit => exact .of_ok (hvalue _).choose_spec
  | plusMinus mean deviation unit =>
    refine Sampler.plusMinus_total rfl ?_ hdrawable
    exact hunit
  | interval low high unit =>
    refine Sampler.lognormal_total rfl ?_ hdrawable.1 hdrawable.2 hmass
    exact hunit
  | oneOf values weights unit =>
    obtain ⟨hsome, hlength, hweights, hsum⟩ := hdrawable
    refine Sampler.weighted_total rfl ?_ hsome hlength hweights hsum
    exact hunit

end Constant

end Ballpark
