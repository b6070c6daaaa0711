import DsiRest.BoundaryValue
import DsiRest.BufferCleanup
import DsiRest.DownloadExits
import DsiRest.DownloadFlow
import DsiRest.DownloadProgress
import DsiRest.DownloadStream
import DsiRest.BufferMemory
import DsiRest.GridftpExchange
import DsiRest.ReadJson
import DsiRest.ErrorRetryable
import DsiRest.FinalResponse
import DsiRest.FirstError
import DsiRest.FoldedHeaders
import DsiRest.HandleSettings
import DsiRest.HeaderBuffer
import DsiRest.HeaderGrowth
import DsiRest.HeaderPieces
import DsiRest.Lifecycle
import DsiRest.IdleTimeout
import DsiRest.MissingBoundary
import DsiRest.ModuleActivation
import DsiRest.MultipartBare
import DsiRest.MultipartChunks
import DsiRest.MultipartHeaderless
import DsiRest.MultipartProgress
import DsiRest.MultipartResponse
import DsiRest.NestedMultipart
import DsiRest.Ownership
import DsiRest.PartErrors
import DsiRest.RequestHeaders
import DsiRest.ResponseCallback
import DsiRest.ShareProgress
import DsiRest.StatusLine
import DsiRest.TransferCounters
import DsiRest.UploadDefined
import DsiRest.UploadHoles
import DsiRest.UploadProgress
import DsiRest.UploadRange
import DsiRest.UploadRecycled
import DsiRest.UploadWakeup
import DsiRest.UriDecode
import DsiRest.UriQuery
import DsiRest.WriteBlocks
import DsiRest.WriterFailure
