import Framestep.Core.Basic
import Framestep.Proofs.Audio.Pieces
import Framestep.Proofs.Audio.Queue
import Framestep.Proofs.Audio.Refusal
import Framestep.Proofs.Audio.Safety
import Framestep.Proofs.Control.Changes
import Framestep.Proofs.Control.Reads
import Framestep.Proofs.Control.Steering
import Framestep.Proofs.Core.Life
import Framestep.Proofs.Core.Upload
import Framestep.Proofs.Disk.Sniffing
import Framestep.Proofs.Session.Blocks
import Framestep.Proofs.Session.Delivery
import Framestep.Proofs.Session.Drain
import Framestep.Proofs.Session.Forwarding
import Framestep.Proofs.Session.Growth
import Framestep.Proofs.Session.Idle
import Framestep.Proofs.Session.Order
import Framestep.Proofs.Session.Restart
import Framestep.Proofs.Session.Stream
import Framestep.Proofs.Session.Tracking
import Framestep.Proofs.TestCard.Broadcast
import Framestep.Proofs.TestCard.Mirror
import Framestep.Proofs.TestCard.Reach
import Framestep.Proofs.Video.Admission
import Framestep.Proofs.Video.Draft
import Framestep.Proofs.Video.Extent
import Framestep.Proofs.Video.Packing
import Framestep.Proofs.Video.Place
