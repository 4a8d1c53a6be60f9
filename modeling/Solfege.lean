import Solfege.Aural.Step
import Solfege.Main
import Solfege.Proofs.Aural.Performance
import Solfege.Proofs.Aural.Recording
import Solfege.Proofs.Aural.Score
import Solfege.Proofs.Binary64.Bounds
import Solfege.Proofs.Binary64.Exact
import Solfege.Proofs.Binary64.Nearness
import Solfege.Proofs.Binary64.Order
import Solfege.Proofs.Binary64.Ranks
import Solfege.Proofs.Binary64.Rounding
import Solfege.Proofs.Binary64.Unsigned
import Solfege.Proofs.CommandLine.Arguments
import Solfege.Proofs.CommandLine.Aural
import Solfege.Proofs.CommandLine.Command
import Solfege.Proofs.CommandLine.Compile
import Solfege.Proofs.CommandLine.Render
import Solfege.Proofs.Duration.Language
import Solfege.Proofs.Duration.Recognition
import Solfege.Proofs.Duration.Seconds
import Solfege.Proofs.Midi.Track
import Solfege.Proofs.Music.Action
import Solfege.Proofs.Music.Playable
import Solfege.Proofs.Music.Transposing
import Solfege.Proofs.Number.Order
import Solfege.Proofs.Outcome
import Solfege.Proofs.Pitch.Language
import Solfege.Proofs.Pitch.Name
import Solfege.Proofs.Pitch.Spelling
import Solfege.Proofs.Playback.Accounting
import Solfege.Proofs.Playback.Act
import Solfege.Proofs.Playback.Agenda
import Solfege.Proofs.Playback.Bystanders
import Solfege.Proofs.Playback.Change
import Solfege.Proofs.Playback.Completion
import Solfege.Proofs.Playback.Draining
import Solfege.Proofs.Playback.Effect
import Solfege.Proofs.Playback.Ending
import Solfege.Proofs.Playback.Faces
import Solfege.Proofs.Playback.Failing
import Solfege.Proofs.Playback.Independence
import Solfege.Proofs.Playback.Making
import Solfege.Proofs.Playback.Mirrors
import Solfege.Proofs.Playback.Moments
import Solfege.Proofs.Playback.Offline
import Solfege.Proofs.Playback.Orderly
import Solfege.Proofs.Playback.Queue
import Solfege.Proofs.Playback.Recital
import Solfege.Proofs.Playback.Rendering
import Solfege.Proofs.Playback.Run
import Solfege.Proofs.Playback.Sending
import Solfege.Proofs.Playback.Setup
import Solfege.Proofs.Playback.Simulation
import Solfege.Proofs.Playback.Starts
import Solfege.Proofs.Playback.Stopping
import Solfege.Proofs.Playback.Surviving
import Solfege.Proofs.Playback.Tracking
import Solfege.Proofs.Playback.Units
import Solfege.Proofs.Recorder.Beside
import Solfege.Proofs.Recorder.Bounds
import Solfege.Proofs.Recorder.Handing
import Solfege.Proofs.Recorder.Loudness
import Solfege.Proofs.Recorder.Ticks
import Solfege.Proofs.Recorder.Trigger
import Solfege.Proofs.Recorder.Writing
import Solfege.Proofs.Shorthand.Carry
import Solfege.Proofs.Shorthand.Compile
import Solfege.Proofs.Shorthand.Cut
import Solfege.Proofs.Shorthand.Grammar
import Solfege.Proofs.Shorthand.Playing
import Solfege.Proofs.Shorthand.Printing
import Solfege.Proofs.Shorthand.Seam
import Solfege.Proofs.Shorthand.Timeline
import Solfege.Proofs.Shorthand.Token
import Solfege.Proofs.Shorthand.Warning
import Solfege.Proofs.Shorthand.Words
import Solfege.Proofs.Text.Decimal
import Solfege.Proofs.Text.Numeral
import Solfege.Proofs.Text.Plain
