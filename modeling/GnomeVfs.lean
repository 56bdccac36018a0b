import GnomeVfs.CString
import GnomeVfs.Result
import GnomeVfs.Escape
import GnomeVfs.EscapeRoundtrip
import GnomeVfs.Canonicalize
import GnomeVfs.UriSplit
import GnomeVfs.Uri
import GnomeVfs.UriSplitPrint
import GnomeVfs.UriAuthority
import GnomeVfs.UriRoundtrip
import GnomeVfs.UriParsed
import GnomeVfs.CanonicalizeFixed
import GnomeVfs.CanonicalizeNormal
import GnomeVfs.UriNormalize
import GnomeVfs.UriReparse
import GnomeVfs.UriChain
import GnomeVfs.UriEqual
import GnomeVfs.UriRelative
import GnomeVfs.UriRelativeAuthority
import GnomeVfs.Interaction
import GnomeVfs.XferTypes
import GnomeVfs.XferProgress
import GnomeVfs.XferRemove
import GnomeVfs.XferVisit
import GnomeVfs.DirectoryLoad
import GnomeVfs.DirectoryFiles
import GnomeVfs.DirectoryLoops
import GnomeVfs.XferCopy
import GnomeVfs.XferTransfer
import GnomeVfs.XferMerge
import GnomeVfs.XferConflicts
import GnomeVfs.XferDelete
import GnomeVfs.XferUnique
import GnomeVfs.XferReplace
import GnomeVfs.XferFileSystem
import GnomeVfs.XferWatch
import GnomeVfs.XferCancel
import GnomeVfs.XferCopied
import GnomeVfs.XferQuiet
import GnomeVfs.XferComplete
import GnomeVfs.XferData
import GnomeVfs.XferMove
import GnomeVfs.UriPath
import GnomeVfs.UriAppend
import GnomeVfs.UriAncestor
import GnomeVfs.Transition
import GnomeVfs.AsyncJob
import GnomeVfs.AsyncStep
import GnomeVfs.AsyncAccount
import GnomeVfs.AsyncShutdown
import GnomeVfs.AsyncCancel
import GnomeVfs.AsyncLoad
import GnomeVfs.AsyncChannel
import GnomeVfs.RingQueue
import GnomeVfs.Environment
import GnomeVfs.SftpConnection
import GnomeVfs.SftpTransfer
import GnomeVfs.SftpFlight
import GnomeVfs.SftpRead
import GnomeVfs.SftpWrite
import GnomeVfs.BigEndian
import GnomeVfs.SftpBuffer
import GnomeVfs.SftpCodec
import GnomeVfs.SftpAttrs
import GnomeVfs.SftpTransport
import GnomeVfs.SftpReplies
import GnomeVfs.SftpTable
import GnomeVfs.SftpRefusal
import GnomeVfs.Tar
import GnomeVfs.TarTree
import GnomeVfs.TarRead
import GnomeVfs.TarContent
import GnomeVfs.TarInfo
import GnomeVfs.TarBounds
import GnomeVfs.TarListing
import GnomeVfs.Pool
import GnomeVfs.Memory
import GnomeVfs.SocketBuffer
import GnomeVfs.SocketInput
import GnomeVfs.SocketBoundary
import GnomeVfs.SocketOutput
import GnomeVfs.Monitor
import GnomeVfs.MonitorReport
import GnomeVfs.MonitorDispatch
import GnomeVfs.MonitorTimeout
import GnomeVfs.MonitorCancel
import GnomeVfs.MonitorOrder
import GnomeVfs.MonitorTable
import GnomeVfs.FtpControl
import GnomeVfs.FtpInjection
import GnomeVfs.FtpPool
import GnomeVfs.FtpAccount
import GnomeVfs.FtpOperations
import GnomeVfs.FtpAcquire
import GnomeVfs.FtpCallers
import GnomeVfs.FtpMethod
import GnomeVfs.FtpLine
import GnomeVfs.FtpListing
import GnomeVfs.FtpView
import GnomeVfs.FtpStep
import GnomeVfs.FtpMaking
import GnomeVfs.FtpUses
import GnomeVfs.FtpSystem
import GnomeVfs.FtpRadix
import GnomeVfs.FtpCandidates
import GnomeVfs.FtpResponse
import GnomeVfs.Decompress
import GnomeVfs.ParseLs
import GnomeVfs.ParseLsReads
import GnomeVfs.ParseLsNames
import GnomeVfs.ParseLsLinks
import GnomeVfs.ParseLsShared
import GnomeVfs.FtpListingLines
import GnomeVfs.DecompressReads
import GnomeVfs.DaemonListing
import GnomeVfs.DaemonHandles
import GnomeVfs.DaemonCancel
import GnomeVfs.DaemonCalls
import GnomeVfs.EscapeCount
import GnomeVfs.EscapeDisplay
import GnomeVfs.EscapeOptional
import GnomeVfs.LocalPath
import GnomeVfs.UriPort
import GnomeVfs.UriFragment
import GnomeVfs.UriList
import GnomeVfs.UriMemory
import GnomeVfs.SymlinkText
import GnomeVfs.SymlinkWalk
import GnomeVfs.CanonicalizeWalk
import GnomeVfs.CanonicalizeRoot
import GnomeVfs.UriCanonical
import GnomeVfs.CanonicalizeCase
import GnomeVfs.UriCanonicalPath
import GnomeVfs.CanonicalizeAbove
import GnomeVfs.UriCanonicalHost
import GnomeVfs.LeadingBits
import GnomeVfs.AddressMatch
import GnomeVfs.HttpProxy
import GnomeVfs.HttpProxyIgnore
import GnomeVfs.GzipHeader
import GnomeVfs.GzipWrite
import GnomeVfs.Comparator
import GnomeVfs.JobPriority
import GnomeVfs.MountTable
import GnomeVfs.MountDevices
import GnomeVfs.VolumeMonitor
import GnomeVfs.KeyedRemoval
import GnomeVfs.VolumeNames
import GnomeVfs.VolumeTable
import GnomeVfs.VolumeLinks
import GnomeVfs.VolumeRuns
import GnomeVfs.UriParents
import GnomeVfs.UriBounds
import GnomeVfs.PosixAcl
import GnomeVfs.DaemonInfo
import GnomeVfs.SniffBuffer
import GnomeVfs.TarCache
import GnomeVfs.FtpHandle
import GnomeVfs.TarMembers
