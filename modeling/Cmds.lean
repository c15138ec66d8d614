import Cmds.Lshal.Types
import Cmds.Lshal.BinderDebug
import Cmds.Lshal.Fetch
import Cmds.Lshal.PidCache
import Cmds.Lshal.Options
import Cmds.Lshal.Passthrough
import Cmds.Lshal.Postprocess
import Cmds.Lshal.Vintf
import Cmds.Lshal.Main
import Cmds.Keystore.Execute
import Cmds.Keystore.Client
import Cmds.Keystore.Bounds
import Cmds.Keystore.Connection
import Cmds.Keystore.Framing
import Cmds.Keystore.Daemon
import Cmds.Keystore.Session
import Cmds.Dumpstate.DumpFile
