import LsmTree.FileSystem.Request
import LsmTree.Format.Buffer
import LsmTree.Session
import LsmTree.Proofs.Contents
import LsmTree.Proofs.Memtable
import LsmTree.Proofs.Format.RoundTrip
import LsmTree.Proofs.Segment.Content
import LsmTree.Proofs.Segment.Lookup
import LsmTree.Proofs.Items.Merge
import LsmTree.Proofs.Items.Errors
import LsmTree.Proofs.Items.Damage
import LsmTree.Proofs.FileSystem.Ways
import LsmTree.Proofs.FileSystem.Folder
import LsmTree.Proofs.FileSystem.Written
import LsmTree.Proofs.FileSystem.Moved
import LsmTree.Proofs.SegmentSet
import LsmTree.Proofs.Segment.Written
import LsmTree.Proofs.Segment.Damage
import LsmTree.Proofs.Store.Files
import LsmTree.Proofs.Store.Load
import LsmTree.Proofs.Store.Steps
import LsmTree.Proofs.Store.Save
import LsmTree.Proofs.Store.Compact
import LsmTree.Proofs.Store.Crash
import LsmTree.Proofs.Store.Failure
import LsmTree.Proofs.Store.Commute
import LsmTree.Proofs.Store.Flushed
import LsmTree.Proofs.Store.Opening
import LsmTree.Proofs.Store.Newest
import LsmTree.Proofs.Store.Unreadable
import LsmTree.Proofs.Engine.Reads
import LsmTree.Proofs.Engine.Ranges
import LsmTree.Proofs.Engine.Damage
import LsmTree.Proofs.Engine.Steps
import LsmTree.Proofs.Engine.Open
import LsmTree.Proofs.Engine.Erasure
import LsmTree.Proofs.Engine.Policy
import LsmTree.Proofs.Session
import LsmTree.Proofs.Session.Events
import LsmTree.Proofs.Engine.Durable
import LsmTree.Proofs.Engine.Reopen
import LsmTree.Proofs.Engine.Backed
import LsmTree.Proofs.Engine.Acknowledged
import LsmTree.Proofs.Session.Closing
import LsmTree.Proofs.Engine.Views
import LsmTree.Proofs.Session.Views
import LsmTree.Proofs.Session.Policy
import LsmTree.Proofs.Format.Codec
import LsmTree.Proofs.Segment.Probes
import LsmTree.Proofs.Format.Machine
import LsmTree.Proofs.Segment.Machine
import LsmTree.Proofs.Store.FileName
import LsmTree.Proofs.Store.Recovery
import LsmTree.Proofs.Store.Transfer
import LsmTree.Proofs.Engine.Chunks
import LsmTree.Proofs.Engine.FlushHistory
import LsmTree.Proofs.Store.Leftover
import LsmTree.Proofs.Segment.Hints
