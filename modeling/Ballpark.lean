import Ballpark.Main
import Ballpark.Quantity.Operand
import Ballpark.Sensitivity
import Ballpark.Proofs.BinCounts
import Ballpark.Proofs.CanonicalOperations
import Ballpark.Proofs.ComparisonUnits
import Ballpark.Proofs.ConstantSamples
import Ballpark.Proofs.Conversion
import Ballpark.Proofs.CountedBounds
import Ballpark.Proofs.DimensionSpace
import Ballpark.Proofs.EditDistance
import Ballpark.Proofs.ExactRoots
import Ballpark.Proofs.FailedDraws
import Ballpark.Proofs.FigureFiles
import Ballpark.Proofs.GammaFilling
import Ballpark.Proofs.NearestNames
import Ballpark.Proofs.ParticleWise
import Ballpark.Proofs.Pinning
import Ballpark.Proofs.PoissonCounting
import Ballpark.Proofs.PowerUnits
import Ballpark.Proofs.ProgramLines
import Ballpark.Proofs.ProgramPrinting
import Ballpark.Proofs.Quantiles
import Ballpark.Proofs.Recovery
import Ballpark.Proofs.ReportedPlaces
import Ballpark.Proofs.SampleFreeUnits
import Ballpark.Proofs.ScoreDistance
import Ballpark.Proofs.ScoreUnits
import Ballpark.Proofs.SessionShape
import Ballpark.Proofs.Substitution
import Ballpark.Proofs.SumShares
import Ballpark.Proofs.SyntaxFault
import Ballpark.Proofs.TokenPlaces
import Ballpark.Proofs.UncertainLiterals
import Ballpark.Proofs.UnitFault
import Ballpark.Proofs.UnitGrammar
import Ballpark.Proofs.UnitPrinting
import Ballpark.Proofs.WeightedSet
