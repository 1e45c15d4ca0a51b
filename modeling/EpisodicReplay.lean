import EpisodicReplay.Main
import EpisodicReplay.Proofs.Buffer
import EpisodicReplay.Proofs.Capture.Schedule
import EpisodicReplay.Proofs.Capture.Trigger
import EpisodicReplay.Proofs.Command
import EpisodicReplay.Proofs.Command.Rerun
import EpisodicReplay.Proofs.Config
import EpisodicReplay.Proofs.Episode.File
import EpisodicReplay.Proofs.Episode.Reading
import EpisodicReplay.Proofs.Episode.Soundness
import EpisodicReplay.Proofs.Filter.Range
import EpisodicReplay.Proofs.Generator.Stream
import EpisodicReplay.Proofs.History.Settled
import EpisodicReplay.Proofs.Log.Newest
import EpisodicReplay.Proofs.Replay.Readable
import EpisodicReplay.Proofs.Replay.Selection
import EpisodicReplay.Proofs.Ring.Newest
import EpisodicReplay.Proofs.Store.Leniency
import EpisodicReplay.Proofs.Store.Reopening
import EpisodicReplay.Proofs.Store.Scan
import EpisodicReplay.Proofs.Store.Selection
import EpisodicReplay.Proofs.Store.Series
import EpisodicReplay.Proofs.Store.Ticked
import EpisodicReplay.Proofs.Store.Visibility
import EpisodicReplay.Proofs.Tag.Words
import EpisodicReplay.Proofs.Tuning.Accumulation
import EpisodicReplay.Proofs.Tuning.Admission
import EpisodicReplay.Proofs.Tuning.Guard
import EpisodicReplay.Proofs.Tuning.Improvement
import EpisodicReplay.Proofs.Tuning.Isolation
import EpisodicReplay.Proofs.Tuning.Loading
import EpisodicReplay.Proofs.Tuning.Profile
import EpisodicReplay.Proofs.Tuning.Run
import EpisodicReplay.Proofs.Tuning.Scores
