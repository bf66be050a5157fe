import Breadboard.Main
import Breadboard.Proofs.Fallible
import Breadboard.Proofs.Reading
import Breadboard.Proofs.Placement
import Breadboard.Proofs.Consistency
import Breadboard.Proofs.Survey
import Breadboard.Proofs.Resolution
import Breadboard.Proofs.Assembly
import Breadboard.Proofs.Acceptance
import Breadboard.Proofs.Emission
import Breadboard.Proofs.References
import Breadboard.Proofs.Relocation
import Breadboard.Proofs.Diagnosis
import Breadboard.Proofs.Extension
import Breadboard.Proofs.Spelling
import Breadboard.Proofs.Desugaring
import Breadboard.Proofs.Transcription
import Breadboard.Proofs.Formatting
import Breadboard.Proofs.Decoding
import Breadboard.Proofs.Reprinting
import Breadboard.Proofs.ConstantOrder
import Breadboard.Proofs.LineForms
import Breadboard.Proofs.Places
import Breadboard.Proofs.Saving
import Breadboard.Proofs.Effects
import Breadboard.Proofs.Literals
import Breadboard.Proofs.AllOrNothing
import Breadboard.Proofs.Tables
import Breadboard.Proofs.Disassembly
import Breadboard.Proofs.ListingRows
import Breadboard.Proofs.NormalForm
import Breadboard.Proofs.TableHistory
import Breadboard.Proofs.LineEnds
