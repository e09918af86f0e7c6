import RedisSnapshot.CommandLine.FileTree
import RedisSnapshot.Main
import RedisSnapshot.Proofs.Forms.Value
import RedisSnapshot.Proofs.Load.Barrier
import RedisSnapshot.Proofs.Load.Wholeness
import RedisSnapshot.Proofs.Resp.Exchange
import RedisSnapshot.Proofs.Scan.Items
import RedisSnapshot.Proofs.Scan.Prefix
import RedisSnapshot.Proofs.Resp.Framing
import RedisSnapshot.Proofs.Resp.Integer
import RedisSnapshot.Proofs.Forms.Node
import RedisSnapshot.Proofs.Forms.Stream
import RedisSnapshot.Proofs.Scan.Broken
import RedisSnapshot.Proofs.Handshake.Line
import RedisSnapshot.Proofs.Handshake.Sync
import RedisSnapshot.Proofs.Handshake.Limit
import RedisSnapshot.Proofs.Load.Ending
import RedisSnapshot.Proofs.Load.FirstFailure
import RedisSnapshot.Proofs.Scan.Crash
import RedisSnapshot.Proofs.Accepted.Lzf
import RedisSnapshot.Proofs.Forms.Layout
import RedisSnapshot.Proofs.Summary.Keys
import RedisSnapshot.Proofs.Summary.Early
import RedisSnapshot.Proofs.Summary.Withheld
import RedisSnapshot.Proofs.Lines.Framed
import RedisSnapshot.Proofs.Lines.Full
import RedisSnapshot.Proofs.Load.Retries
import RedisSnapshot.Proofs.Load.Fallback
import RedisSnapshot.Proofs.Accepted.Ziplist
import RedisSnapshot.Proofs.Accepted.Listpack
import RedisSnapshot.Proofs.Accepted.Zipmap
import RedisSnapshot.Proofs.Accepted.String
import RedisSnapshot.Proofs.Accepted.Pending
import RedisSnapshot.Proofs.Scan.Stopped
import RedisSnapshot.Proofs.Store.Pushed
import RedisSnapshot.Proofs.Store.Complete
import RedisSnapshot.Proofs.Lines.Labelled
import RedisSnapshot.Proofs.Lines.Entries
import RedisSnapshot.Proofs.Load.Reattempts
import RedisSnapshot.Proofs.Elements.Bounded
import RedisSnapshot.Proofs.Blob
