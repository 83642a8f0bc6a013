import Lighttpd.Lib.CString
import Lighttpd.Lib.Numeral
import Lighttpd.Lib.Segments
import Lighttpd.Lib.Machine
import Lighttpd.Lib.Heap
import Lighttpd.Lib.LinkedList
import Lighttpd.Lib.Flow
import Lighttpd.Lib.Lines
import Lighttpd.Lib.Pieces
import Lighttpd.Buffer
import Lighttpd.PathSimplify
import Lighttpd.Caseless
import Lighttpd.Chunk
import Lighttpd.QueueContent
import Lighttpd.ChunkRecycle
import Lighttpd.Autothumb.Common
import Lighttpd.Autothumb.UriBounds
import Lighttpd.Autothumb.UriNames
import Lighttpd.Array
import Lighttpd.ArrayElements
import Lighttpd.Base
import Lighttpd.Response
import Lighttpd.Autothumb.Output
import Lighttpd.Autothumb.Subrequest
import Lighttpd.Autothumb.FileStore
import Lighttpd.Request.Hostname
import Lighttpd.Request.HostGrammar
import Lighttpd.Request.Parse
import Lighttpd.Request.KeepAlive
import Lighttpd.Request.Fields
import Lighttpd.Request.FieldHistory
import Lighttpd.Request.Accepted
import Lighttpd.Request.Framing
import Lighttpd.Request.SavedPointers
import Lighttpd.Connections.ReadState
import Lighttpd.Connections.ReadQueue
import Lighttpd.Connections.HeaderEnd
import Lighttpd.Connections.BodyQueue
import Lighttpd.Connections.History
import Lighttpd.Connections.Table
import Lighttpd.ChunkLinks
import Lighttpd.ChunkHistory
import Lighttpd.Lib.ChunkedBody
import Lighttpd.HttpChunk
import Lighttpd.Lib.MarkedPieces
import Lighttpd.Lib.Compare
import Lighttpd.CaselessOrder
import Lighttpd.ArrayOrder
import Lighttpd.ArrayHistory
import Lighttpd.Range.ParseRange
import Lighttpd.Range.RangeSpecs
import Lighttpd.Range.QueuedParts
import Lighttpd.Range.Satisfied
import Lighttpd.Lib.Record
import Lighttpd.Fastcgi.Packets
import Lighttpd.Fastcgi.CreateEnv
import Lighttpd.Fastcgi.Framing
import Lighttpd.Fastcgi.Procs
import Lighttpd.Fastcgi.Requests
import Lighttpd.Fastcgi.Counters
import Lighttpd.Fastcgi.Contexts
import Lighttpd.Fastcgi.Accounting
import Lighttpd.Fastcgi.Sent
import Lighttpd.StatCache
import Lighttpd.StatCacheHistory
import Lighttpd.Staticfile.Cachable
import Lighttpd.Staticfile.Subrequest
import Lighttpd.ConfigfileGlue
import Lighttpd.ConfigfileChains
import Lighttpd.Plugins.SimpleVhost
import Lighttpd.Plugins.Extforward
import Lighttpd.Fastdfs.Subrequest
import Lighttpd.Lib.Walk
import Lighttpd.PhysicalPath
import Lighttpd.Plugins.Alias
import Lighttpd.Plugins.Userdir
import Lighttpd.Lempar
import Lighttpd.Ssi.ExprParser
import Lighttpd.Ssi.Expr
import Lighttpd.Ssi.Nesting
import Lighttpd.Ssi.Pages
import Lighttpd.Connections.TimeoutScan
import Lighttpd.Plugins.Rewrite
import Lighttpd.Configparser
import Lighttpd.ConfigfileHistory
import Lighttpd.Connections.WritePrepare
import Lighttpd.Fastdfs.Finishes
import Lighttpd.Plugins.Proxy
import Lighttpd.Lib.Holdings
import Lighttpd.Fastcgi.Tempfiles
import Lighttpd.Lib.FileTree
import Lighttpd.Plugins.Webdav
import Lighttpd.Plugins.WebdavMove
import Lighttpd.ResponseFields
import Lighttpd.Connections.ErrorDocument
import Lighttpd.Staticfile.RefusedRange
import Lighttpd.Fastdfs.RangeAgreement
import Lighttpd.UrlCoding
import Lighttpd.TimeCache
import Lighttpd.Plugins.ProxySsl
import Lighttpd.Plugins.RefreshedConditions
import Lighttpd.ConfigparserElse
import Lighttpd.ConfigparserArrays
import Lighttpd.Plugins.Cgi
import Lighttpd.Lib.Fields
import Lighttpd.Plugins.ProxyFields
import Lighttpd.Request.LineGrammar
import Lighttpd.Plugins.Compress
import Lighttpd.Plugins.CompressAnswer
import Lighttpd.HttpAuth
import Lighttpd.Lib.Tokens
import Lighttpd.Autothumb.Thumbnail
import Lighttpd.Autothumb.CropFormat
import Lighttpd.Autothumb.Expiry
import Lighttpd.Autothumb.UriGrammar
import Lighttpd.Lib.Bits
import Lighttpd.ConfigfileOperands
import Lighttpd.Ssi.Words
import Lighttpd.Fastcgi.Response
import Lighttpd.Fastcgi.Authorizer
import Lighttpd.HttpAuth.Password
import Lighttpd.HttpAuth.Rules
import Lighttpd.HttpAuth.Digest
import Lighttpd.Request.SplitValue
import Lighttpd.ArrayPop
import Lighttpd.NetworkWritev
import Lighttpd.Fastcgi.Rollback
import Lighttpd.ArrayBounds
import Lighttpd.Fastcgi.ResponseHeader
import Lighttpd.Lib.BlankLines
import Lighttpd.Fastcgi.HeaderSplit
import Lighttpd.Fastcgi.Sendfile
import Lighttpd.Lib.NameValue
import Lighttpd.Fastcgi.EnvPairs
import Lighttpd.Plugins.Evhost
import Lighttpd.Plugins.ForwardedAddresses
import Lighttpd.Plugins.AliasCheck
import Lighttpd.PathInfo
import Lighttpd.Plugins.RewriteTemplate
import Lighttpd.BufferGuards
import Lighttpd.BufferHistory
import Lighttpd.PathBounds
import Lighttpd.Plugins.Expire
import Lighttpd.Joblist
import Lighttpd.Lib.Exchange
import Lighttpd.Plugins.Dirlisting
import Lighttpd.Plugins.Accesslog
import Lighttpd.Plugins.WebdavDelete
import Lighttpd.Lib.Selection
import Lighttpd.Plugins.ProxyBalance
import Lighttpd.EtagCalls
import Lighttpd.Fastdfs.NameParser
import Lighttpd.ConfigparserAppend
import Lighttpd.ConfigfileResults
import Lighttpd.Plugins.ProxyResponse
import Lighttpd.Lib.Outlet
import Lighttpd.NetworkSendfile
import Lighttpd.Connections.StateMachine
import Lighttpd.ResponsePrepare
