import PhalaCore.Keeper.Quota
import PhalaCore.Keeper.Insert
import PhalaCore.Prb.Message
import PhalaCore.Prb.Dispatcher
import PhalaCore.Prb.Wrap
import PhalaCore.Prb.World
import PhalaCore.Prb.Retry
import PhalaCore.Prb.Window
import PhalaCore.Prb.Flight
import PhalaCore.Prb.Isolation
import PhalaCore.Prb.Traffic
import PhalaCore.Replay.Factory
import PhalaCore.Replay.Dispatch
import PhalaCore.Replay.Launch
import PhalaCore.Replay.Records
import PhalaCore.Replay.Driver
import PhalaCore.Replay.Wait
import PhalaCore.Replay.Progress
import PhalaCore.Replay.Restore
import PhalaCore.Replay.Stream
import PhalaCore.Replay.Liveness
