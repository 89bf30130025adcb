import Tabletop.Main
import Tabletop.Proofs.Console.Replay
import Tabletop.Proofs.Dice.Even
import Tabletop.Proofs.Term.Causes
import Tabletop.Proofs.Roll.Ends
import Tabletop.Proofs.Roll.Renumbering
import Tabletop.Proofs.Roll.Alike
import Tabletop.Proofs.Roll.Limit
import Tabletop.Proofs.Display.Decoration
import Tabletop.Proofs.Roll.Log
import Tabletop.Proofs.Roll.Flip
import Tabletop.Proofs.Display.Visits
import Tabletop.Proofs.Term.Flat
import Tabletop.Proofs.Expression.Stepwise
import Tabletop.Proofs.Settings
import Tabletop.Proofs.Console.Interruption
import Tabletop.Proofs.Expression.Partition
import Tabletop.Proofs.Term.Wording
