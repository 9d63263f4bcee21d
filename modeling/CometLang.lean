import CometLang.Main
import CometLang.Proofs.Mirror
import CometLang.Proofs.Safety
import CometLang.Proofs.Discipline
import CometLang.Proofs.ArithmeticTree
import CometLang.Proofs.CometText
import CometLang.Proofs.Scoping
import CometLang.Proofs.Scanning
import CometLang.Proofs.ScopeSafety
import CometLang.Proofs.Words
import CometLang.Proofs.Relabelling
import CometLang.Proofs.TagReading
import CometLang.Proofs.Renamed
import CometLang.Proofs.Recasting
import CometLang.Proofs.FrontEnds
import CometLang.Proofs.Renaming
import CometLang.Proofs.Firing
import CometLang.Proofs.Juxtaposition
import CometLang.Proofs.Raising
import CometLang.Proofs.Atomicity
import CometLang.Proofs.Rounds
import CometLang.Proofs.StringContents
import CometLang.Proofs.Caret
import CometLang.Proofs.LatestWrites
import CometLang.Proofs.Culprits
import CometLang.Proofs.Invariance
import CometLang.Proofs.GoodValues
import CometLang.Proofs.Numerals
import CometLang.Proofs.Placement
import CometLang.Proofs.StoredValues
import CometLang.Proofs.Diagnostics
import CometLang.Proofs.Guards
import CometLang.Proofs.Concatenation
import CometLang.Proofs.Stretches
import CometLang.Proofs.Printing
import CometLang.Proofs.Tiling
import CometLang.Proofs.TagCodec
import CometLang.Proofs.Curtailing
import CometLang.Proofs.Chronicle
import CometLang.Proofs.TopOfStack
