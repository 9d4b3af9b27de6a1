import Ballpark.Bindings
import Ballpark.Random.Interval
import Ballpark.Random.WeightedSet

/-!
# Constants

Mathematical and physical constants by name. A defined constant is exact; a measured one is uncertain
by its published standard deviation, so its particles are drawn. They are drawn when a program first
mentions the constant and kept from then on, under the constant's own name, whatever other names it
has.
-/

namespace Ballpark

/-- How the value of a constant is known; the unit is a text. -/
inductive Constant (R : Type) where
  | exact (value : R) (unit : String)
  | plusMinus (mean deviation : R) (unit : String)
  | interval (low high : R) (unit : String)
  | oneOf (values weights : List R) (unit : String)

namespace Constant

variable {R : Type} [Scalar R]

/-- A value that is given by its decimals. -/
def exactly (value : Rat) (unit : String) : Constant R :=
  .exact (Scalar.ofRat value) unit

/-- A measured value with its standard deviation. -/
def measured (mean deviation : Rat) (unit : String) : Constant R :=
  .plusMinus (Scalar.ofRat mean) (Scalar.ofRat deviation) unit

/-- A value that is only known to lie in an interval. -/
def spread (low high : Rat) (unit : String) : Constant R :=
  .interval (Scalar.ofRat low) (Scalar.ofRat high) unit

/-- One of several values, with their weights. -/
def weighted (values weights : List Rat) (unit : String) : Constant R :=
  .oneOf (values.map Scalar.ofRat) (weights.map Scalar.ofRat) unit

/-- The constants under their own names. -/
def table : List (String × Constant R) := [
  ("pi", .exact Scalar.pi ""),
  ("e", .exact Scalar.euler ""),
  ("tau", .exact (Scalar.ofNat 2 * Scalar.pi) ""),
  ("phi", .exact ((Scalar.ofNat 1 + Scalar.apply .sqrt (Scalar.ofNat 5)) / Scalar.ofNat 2) ""),
  ("googol", exactly 1e100 ""),
  ("c", exactly 299792458 "m/s"),
  ("h", exactly 6.62607015e-34 "J s"),
  ("hbar", .exact (Scalar.ofRat 6.62607015e-34 / (Scalar.ofNat 2 * Scalar.pi)) "J s"),
  ("e_charge", exactly 1.602176634e-19 "C"),
  ("k_B", exactly 1.380649e-23 "J/K"),
  ("N_A", exactly 6.02214076e23 "1/mol"),
  ("G", measured 6.67430e-11 0.00015e-11 "N m^2 / kg^2"),
  ("g", exactly 9.80665 "m/s^2"),
  ("alpha", measured 7.2973525643e-3 1.1e-12 ""),
  ("amu", measured 1.66053906892e-27 5.2e-37 "kg"),
  ("a0", measured 5.29177210544e-11 8.2e-21 "m"),
  ("m_e", measured 9.1093837139e-31 2.8e-40 "kg"),
  ("m_p", measured 1.67262192595e-27 5.2e-37 "kg"),
  ("m_n", measured 1.67492750056e-27 8.5e-37 "kg"),
  ("sigma", exactly 5.670374419e-8 "W / m^2 / K^4"),
  ("eps0", exactly 8.8541878128e-12 "F/m"),
  ("mu0", exactly 1.25663706212e-6 "H/m"),
  ("R", exactly 8.314462618 "J / mol / K"),
  ("AU", exactly 149597870700 "m"),
  ("ly", exactly 9.4607304725808e15 "m"),
  ("pc", exactly 3.0856775814913673e16 "m"),
  ("M_sun", measured 1.98841e30 4e25 "kg"),
  ("R_sun", measured 6.96342e8 6.5e4 "m"),
  ("L_sun", measured 3.828e26 8e22 "W"),
  ("M_earth", measured 5.9722e24 6.0e20 "kg"),
  ("R_earth", measured 6.371e6 1e4 "m"),
  ("M_moon", measured 7.342e22 1e18 "kg"),
  ("R_moon", measured 1737.4e3 100 "m"),
  ("solar_constant", measured 1360.8 0.5 "W/m^2"),
  ("milky_way_stars", spread 100e9 400e9 ""),
  ("year_days", weighted [365, 366] [303, 97] "day"),
  ("month_days", weighted [31, 30, 29, 28] [2800, 1600, 97, 303] "day"),
  ("T0", exactly 273.15 "K"),
  ("rho_water", exactly 1000 "kg/m^3"),
  ("rho_air", measured 1.225 0.01 "kg/m^3"),
  ("rho_steel", measured 7850 100 "kg/m^3"),
  ("rho_ice", measured 917 10 "kg/m^3"),
  ("earth_surface_area", exactly 5.1e14 "m^2"),
  ("earth_land_area", exactly 1.49e14 "m^2"),
  ("human_basal_power", measured 80 10 "W"),
  ("energy_density_gasoline", measured 46e6 2e6 "J/kg"),
  ("world_population", measured 8.2e9 0.1e9 ""),
  ("us_population", measured 335e6 5e6 "")]

/-- The other names of constants. -/
def otherNames : List (String × String) := [
  ("euler", "e"),
  ("speed_of_light", "c"),
  ("planck", "h"),
  ("kB", "k_B"),
  ("boltzmann", "k_B"),
  ("NA", "N_A"),
  ("avogadro", "N_A"),
  ("standard_gravity", "g"),
  ("gas_constant", "R"),
  ("stefan_boltzmann", "sigma"),
  ("epsilon0", "eps0"),
  ("electron_mass", "m_e"),
  ("proton_mass", "m_p"),
  ("neutron_mass", "m_n"),
  ("bohr_radius", "a0"),
  ("earth_mass", "M_earth"),
  ("earth_radius", "R_earth"),
  ("sun_mass", "M_sun"),
  ("sun_radius", "R_sun"),
  ("sun_luminosity", "L_sun"),
  ("moon_mass", "M_moon"),
  ("moon_radius", "R_moon"),
  ("days_per_year", "year_days")]

/-- All names of constants. -/
def names (R : Type) [Scalar R] : List String :=
  (table (R := R)).map (·.1) ++ otherNames.map (·.1)

/-- A constant's own name, for any of its names. -/
def ownName (name : String) : String :=
  (otherNames.lookup name).getD name

/-- The constant of a name. -/
def ofName? (name : String) : Option (Constant R) :=
  table.lookup (ownName name)

variable {S : Type} [RandomSource S R]

/-- Draws the value of a constant. -/
def draw (confidence : Written R) (count : Except (Fault R) SampleCount) :
    Constant R → Draw R S (Quantity R)
  | exact value unit => Draw.ofExcept (Quantity.ofText (.scalar value) unit)
  | plusMinus mean deviation unit => Sampler.plusMinus mean deviation ⟨count, .text unit⟩
  | interval low high unit => Sampler.lognormal low high confidence ⟨count, .text unit⟩
  | oneOf values weights unit => Sampler.weighted values weights ⟨count, .text unit⟩

/-- The value of the constant of a name, drawn unless it has been drawn before. -/
def remember (confidence : Written R) (count : Except (Fault R) SampleCount) (name : String)
    (drawn : Bindings (Quantity R)) :
    Draw R S (Option (Quantity R) × Bindings (Quantity R)) := do
  match ofName? name with
  | none => return (none, drawn)
  | some constant =>
    match drawn.get? (ownName name) with
    | some q => return (some q, drawn)
    | none =>
      let q ← constant.draw confidence count
      return (some q, drawn.set (ownName name) q)

end Constant

end Ballpark
