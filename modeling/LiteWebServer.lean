import LiteWebServer.ConnLoop.Backlog
import LiteWebServer.Http.BodyFraming
import LiteWebServer.Http.ExactTokens
import LiteWebServer.Process.Clients
import LiteWebServer.Server.Returning
import LiteWebServer.StringUtil.Split
import LiteWebServer.ThreadPool.PartialStop
import LiteWebServer.ThreadPool.Regulation
import LiteWebServer.ThreadPool.TaskOnce
import LiteWebServer.TimeUtil.FiniteMap
import LiteWebServer.UserConn.BufferRoom
import LiteWebServer.UserConn.Delimited
import LiteWebServer.UserConn.Descriptors
import LiteWebServer.UserConn.DocRoot
import LiteWebServer.UserConn.HeadLines
import LiteWebServer.UserConn.InMemory
import LiteWebServer.UserConn.KeepAlive
import LiteWebServer.UserConn.Pipeline
import LiteWebServer.UserConn.Redirect
import LiteWebServer.UserConn.ResponseOps
import LiteWebServer.UserConn.Routing
import LiteWebServer.UserConn.StatusLine
