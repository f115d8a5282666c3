import WsHyper.Lib.Text
import WsHyper.Lib.AssocMap
import WsHyper.Lib.Branching
import WsHyper.Lib.Panic
import WsHyper.Lib.Path
import WsHyper.Lib.Sink
import WsHyper.Directory.Key
import WsHyper.Directory.Decode
import WsHyper.Directory.Object
import WsHyper.Directory.BucketMap
import WsHyper.Directory.FlatMap
import WsHyper.Directory.FlatView
import WsHyper.Directory.Simulation
import WsHyper.Directory.ChangeRuns
import WsHyper.Directory.UniqueNames
import WsHyper.Directory.Agreement
import WsHyper.Directory.Build
import WsHyper.Directory.BuildDatabase
import WsHyper.Directory.Labels
import WsHyper.Directory.KeyRemoval
import WsHyper.Directory.Lifecycle
import WsHyper.Directory.ObjectRenames
import WsHyper.Directory.EventWatcher
import WsHyper.Directory.Network
import WsHyper.Directory.NetworkOrder
import WsHyper.Directory.RemoveEvents
import WsHyper.Lib.PathBuf
import WsHyper.UploadFiles.Buffer
import WsHyper.UploadFiles.StreamUpload
import WsHyper.UploadFiles.Upload
import WsHyper.UploadFiles.Stored
import WsHyper.UploadFiles.Confined
import WsHyper.UploadFiles.SharedFiles
import WsHyper.Lib.Sql
import WsHyper.Auth.Schema
import WsHyper.Auth.Queries
import WsHyper.Auth.Models
import WsHyper.Auth.Repository
import WsHyper.Auth.Handlers
import WsHyper.Auth.Effects
import WsHyper.Auth.Families
import WsHyper.Auth.Confinement
import WsHyper.Auth.Identities
import WsHyper.Auth.GrpcInfo
import WsHyper.Auth.Passwords
import WsHyper.Auth.Deletion
import WsHyper.Auth.Assignment
import WsHyper.UploadFiles.ByteStream
import WsHyper.UploadFiles.Flushing
import WsHyper.UploadFiles.Fused
import WsHyper.Lib.Language
import WsHyper.UploadFiles.StreamLanguage
import WsHyper.UploadFiles.SoundBody
import WsHyper.UploadFiles.UploadVideo
import WsHyper.Lib.Mailbox
import WsHyper.Lib.FairLock
import WsHyper.Directory.WebSocket
import WsHyper.Directory.Broadcast
import WsHyper.Directory.Deadlock
import WsHyper.Lib.PathText
import WsHyper.Lib.FileSystem
import WsHyper.Directory.KeyPieces
import WsHyper.Directory.CreateObject
import WsHyper.Directory.LegalNames
import WsHyper.Directory.BucketListing
import WsHyper.Directory.FailedRenames
import WsHyper.Directory.TakenNames
import WsHyper.Directory.Addresses
import WsHyper.Directory.Announcements
import WsHyper.Directory.Echoes
import WsHyper.Lib.MovedTree
import WsHyper.Directory.DirectoryMoves
import WsHyper.Directory.RenameSource
import WsHyper.Directory.SiblingRenames
import WsHyper.Auth.StatementText
import WsHyper.Lib.HeaderText
import WsHyper.Auth.Routes
import WsHyper.Utils.Tokens
import WsHyper.Utils.ProxyInfo
import WsHyper.Auth.Panics
import WsHyper.Auth.Entry
import WsHyper.Directory.Browsing
import WsHyper.Lib.Digits
import WsHyper.Lib.IpAddr
import WsHyper.Lib.FlatSet
import WsHyper.Directory.PendingItems
import WsHyper.Lib.Regex
import WsHyper.Directory.FileTimes
import WsHyper.Directory.SyncedObject
import WsHyper.Utils.Host
import WsHyper.Utils.Cors
import WsHyper.Directory.NetworkRest
import WsHyper.Utils.Claims
import WsHyper.UploadFiles.Endpoint
import WsHyper.Directory.HttpStack
import WsHyper.Auth.Sessions
import WsHyper.Directory.NetworkRenames
import WsHyper.Auth.Lifetime
import WsHyper.Directory.Restart
import WsHyper.Directory.NetworkCrash
import WsHyper.Directory.ObjectMoves
import WsHyper.Directory.ObjectLookup
import WsHyper.Directory.Places
import WsHyper.Directory.Brokers
import WsHyper.Directory.TreeLock
import WsHyper.Lib.Spelling
import WsHyper.Directory.Listing
import WsHyper.Directory.Operations
import WsHyper.Directory.NetworkFollows
