import Ballpark.Proofs.Dimension
import Ballpark.Proofs.Outcome

/-!
# Dimensions as a rational vector space

Products of dimensions are the addition of a vector space and powers its scaling. In powers that is
plain: they are added and scaled axis by axis. What carries it over to the dimensions themselves is that
nothing builds a dimension outside of normal form (`Dimension.Built.normal`), where the order of the
labels leaves one dimension for each vector of powers; so every law is shown for the powers of one axis.
-/

namespace Ballpark

namespace Dimension

/-! ## Where dimensions come from -/

/-- The dimensions that are put together from powers of base quantities and from labels. -/
inductive Built : Dimension → Prop
  /-- powers of the base quantities, as fractions -/
  | ofPowers (power : Base → Rat) : Built (ofPowers power)
  /-- powers of named base quantities, as numbers -/
  | ofNames {R : Type} [Scalar R] {powers : List (String × R)} {d : Dimension}
      (hd : ofNames powers = .ok d) : Built d
  | label (name : String) : Built (label name)
  | multiply {a b : Dimension} (ha : Built a) (hb : Built b) : Built (a.multiply b)
  | divide {a b : Dimension} (ha : Built a) (hb : Built b) : Built (a.divide b)
  | pow {a : Dimension} (ha : Built a) (k : Rat) : Built (a.pow k)

theorem normal_ofExponents {R : Type} {exponents : List Rat} {d : Dimension}
    (hd : (ofExponents exponents : Except (Fault R) Dimension) = .ok d) : d.Normal := by
  unfold ofExponents at hd
  split at hd
  · cases hd
    exact LabelPowers.normal_nil
  · cases hd

theorem normal_ofNames {R : Type} [Scalar R] {powers : List (String × R)} {d : Dimension}
    (hd : ofNames powers = .ok d) : d.Normal := by
  simp only [ofNames] at hd
  split at hd
  · cases hd
  · obtain ⟨exponents, -, hd⟩ := ok_of_bind hd
    exact normal_ofExponents hd

/-- Nothing builds a dimension outside of normal form. -/
theorem Built.normal {d : Dimension} (h : Built d) : d.Normal := by
  induction h with
  | ofPowers power => exact LabelPowers.normal_nil
  | ofNames hd => exact normal_ofNames hd
  | label name => exact normal_label name
  | multiply _ _ iha _ => exact iha.multiply _
  | divide _ _ iha _ => exact iha.divide _
  | pow _ k iha => exact iha.pow k

/-! ## The laws -/

section Laws

variable {a b c : Dimension}

theorem Normal.multiply_comm (ha : a.Normal) (hb : b.Normal) : a.multiply b = b.multiply a := by
  refine ext_power (ha.multiply b) (hb.multiply a) fun x => ?_
  rw [power_multiply, power_multiply, add_comm]

theorem Normal.multiply_assoc (ha : a.Normal) (b c : Dimension) :
    (a.multiply b).multiply c = a.multiply (b.multiply c) := by
  refine ext_power ((ha.multiply b).multiply c) (ha.multiply _) fun x => ?_
  simp only [power_multiply, add_assoc]

theorem Normal.multiply_one (ha : a.Normal) : a.multiply one = a := by
  refine ext_power (ha.multiply one) ha fun x => ?_
  rw [power_multiply, power_one, add_zero]

theorem Normal.divide_eq (ha : a.Normal) (b : Dimension) : a.divide b = a.multiply (b.pow (-1)) := by
  refine ext_power (ha.divide b) (ha.multiply _) fun x => ?_
  rw [power_divide, power_multiply, power_pow]
  ring

theorem Normal.divide_self (ha : a.Normal) : a.divide a = one := by
  refine ext_power (ha.divide a) normal_one fun x => ?_
  rw [power_divide, power_one, sub_self]

theorem Normal.pow_one (ha : a.Normal) : a.pow 1 = a := by
  refine ext_power (ha.pow 1) ha fun x => ?_
  rw [power_pow, mul_one]

theorem Normal.multiply_pow (ha : a.Normal) (b : Dimension) (k : Rat) :
    (a.multiply b).pow k = (a.pow k).multiply (b.pow k) := by
  refine ext_power ((ha.multiply b).pow k) ((ha.pow k).multiply _) fun x => ?_
  simp only [power_multiply, power_pow, add_mul]

theorem Normal.pow_pow (ha : a.Normal) (j k : Rat) : (a.pow j).pow k = a.pow (j * k) := by
  refine ext_power ((ha.pow j).pow k) (ha.pow _) fun x => ?_
  simp only [power_pow, mul_assoc]

theorem Normal.pow_multiply_pow (ha : a.Normal) (j k : Rat) :
    (a.pow j).multiply (a.pow k) = a.pow (j + k) := by
  refine ext_power ((ha.pow j).multiply _) (ha.pow _) fun x => ?_
  simp only [power_multiply, power_pow, mul_add]

end Laws

/-- **Dimensions are a rational vector space.** However a dimension is put together, its labels stand in
their order, each once and with a power that is not zero; so dimensions with the same power along every
axis are equal. Products are commutative and associative with the dimension of plain numbers as their
unit, a quotient is a product with the inverse power, and powers scale as fractions do. -/
theorem built_vectorSpace {a b : Dimension} (ha : Built a) (hb : Built b) (c : Dimension) (j k : Rat) :
    (a.labels.Pairwise (·.1 < ·.1) ∧ ∀ e ∈ a.labels, e.2 ≠ 0 ∧ a.power (.label e.1) = e.2) ∧
    ((∀ x, a.power x = b.power x) → a = b) ∧
    a.multiply b = b.multiply a ∧
    (a.multiply b).multiply c = a.multiply (b.multiply c) ∧
    (a.multiply one = a ∧ one.multiply a = a) ∧
    (a.divide b = a.multiply (b.pow (-1)) ∧ a.divide a = one) ∧
    (a.multiply b).pow k = (a.pow k).multiply (b.pow k) ∧
    ((a.pow j).pow k = a.pow (j * k) ∧ a.pow 1 = a) ∧
    (a.pow j).multiply (a.pow k) = a.pow (j + k) := by
  have hna := ha.normal
  have hnb := hb.normal
  refine ⟨⟨hna.ordered, fun e he => ⟨hna.nonzero e he, hna.power_of_mem he⟩⟩, ext_power hna hnb,
    hna.multiply_comm hnb, hna.multiply_assoc b c, ⟨hna.multiply_one, ?_⟩,
    ⟨hna.divide_eq b, hna.divide_self⟩, hna.multiply_pow b k, ⟨hna.pow_pow j k, hna.pow_one⟩,
    hna.pow_multiply_pow j k⟩
  rw [normal_one.multiply_comm hna]
  exact hna.multiply_one

/-- A label that cancels against its inverse: whichever of the two comes first, the label is gone. -/
theorem widget_gadgets_per_widget :
    Built ((label "widget").multiply (label "gadget")) ∧ Built ((label "widget").pow (-1)) ∧
    ((label "widget").multiply (label "gadget")).multiply ((label "widget").pow (-1)) =
      ((label "widget").pow (-1)).multiply ((label "widget").multiply (label "gadget")) ∧
    (((label "widget").multiply (label "gadget")).pow 2).pow (1 / 2) =
      ((label "widget").multiply (label "gadget")).pow (2 * (1 / 2)) := by
  have hproduct : Built ((label "widget").multiply (label "gadget")) := .multiply (.label _) (.label _)
  have hinverse : Built ((label "widget").pow (-1)) := .pow (.label _) (-1)
  obtain ⟨-, -, hcomm, -, -, -, -, ⟨hpow, -⟩, -⟩ := built_vectorSpace hproduct hinverse one 2 (1 / 2)
  exact ⟨hproduct, hinverse, hcomm, hpow⟩

example : (((label "widget").multiply (label "gadget")).multiply ((label "widget").pow (-1))).labels =
    [("gadget", 1)] := by
  decide +kernel

end Dimension

end Ballpark
