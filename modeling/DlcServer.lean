import DlcServer.Library.Pool
import DlcServer.Library.JsonSplice
import DlcServer.ParsedTree
import DlcServer.L1Manifest
import DlcServer.FrameLengths
import DlcServer.UpgradeStat
import DlcServer.HmiStream
import DlcServer.DmcStream
import DlcServer.LockDiscipline
import DlcServer.ExitFlags
import DlcServer.StartUpgrade
import DlcServer.SuccessReports
import DlcServer.Pipeline
import DlcServer.StatusChain
import DlcServer.PackageTrace
import DlcServer.TftpServing
import DlcServer.TftpDownload
import DlcServer.TftpUpload
import DlcServer.TftpPeers
import DlcServer.ManifestAgreement
import DlcServer.ManifestPath
import DlcServer.MessageTexts
import DlcServer.KeptStrings
import DlcServer.PeerConnections
import DlcServer.Library.HandleCalls
import DlcServer.TftpHandles
import DlcServer.DmcReconnects
import DlcServer.RejectedManifest
import DlcServer.ReportOrder
import DlcServer.BuilderMemory
import DlcServer.StatusRelay
import DlcServer.RequestUuid
import DlcServer.EventData
import DlcServer.FailedConnects
import DlcServer.L1Outcome
import DlcServer.NullPointers
import DlcServer.Library.History
import DlcServer.TftpSequence
import DlcServer.TftpLengths
import DlcServer.TftpShortWrites
import DlcServer.TftpReadLoop
import DlcServer.TftpRetransmits
import DlcServer.TftpBlockOrder
import DlcServer.TftpRounds
import DlcServer.TftpStaleBytes
import DlcServer.CJsonDialect
import DlcServer.CJsonRefinement
import DlcServer.CJsonBounds
import DlcServer.CJsonDocuments
import DlcServer.HttpDelivery
import DlcServer.HttpChunks
import DlcServer.TftpStore
import DlcServer.Mbuf
import DlcServer.MgConnection
import DlcServer.HttpRequests
import DlcServer.HttpEndpoints
