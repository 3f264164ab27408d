import CxxFramework.Core.StringParser

/-!
# The vocabulary of HTTP

The versions, methods, headers and status codes of `HTTPProtocol`, their texts, and the
lookups from a text. `none` stands for an access outside a table.
-/

namespace CxxFramework.Net

open CxxFramework.Core

inductive HTTPVersion where
  | http09version
  | http10Version
  | http11Version
  | httpIllegalVersion
deriving DecidableEq, Repr

inductive HTTPMethod where
  | httpGetMethod
  | httpHeadMethod
  | httpPostMethod
  | httpOptionsMethod
  | httpPutMethod
  | httpDeleteMethod
  | httpTraceMethod
  | httpConnectMethod
  | httpIllegalMethod
deriving DecidableEq, Repr

inductive HTTPType where
  | httpRequestType
  | httpResponseType
  | httpIllegalType
deriving DecidableEq, Repr

/-- The VIP headers come first. -/
inductive HTTPHeader where
  | httpConnectionHeader
  | httpDateHeader
  | httpAuthorizationHeader
  | httpIfModifiedSinceHeader
  | httpServerHeader
  | httpWWWAuthenticateHeader
  | httpExpiresHeader
  | httpLastModifiedHeader
  | httpCacheControlHeader
  | httpPragmaHeader
  | httpTrailerHeader
  | httpTransferEncodingHeader
  | httpUpgradeHeader
  | httpViaHeader
  | httpWarningHeader
  | httpAcceptHeader
  | httpAcceptCharsetHeader
  | httpAcceptEncodingHeader
  | httpAcceptLanguageHeader
  | httpExpectHeader
  | httpFromHeader
  | httpHostHeader
  | httpIfMatchHeader
  | httpIfNoneMatchHeader
  | httpIfRangeHeader
  | httpIfUnmodifiedSinceHeader
  | httpMaxForwardsHeader
  | httpProxyAuthorizationHeader
  | httpRangeHeader
  | httpRefererHeader
  | httpTEHeader
  | httpUserAgentHeader
  | httpAcceptRangesHeader
  | httpAgeHeader
  | httpETagHeader
  | httpLocationHeader
  | httpProxyAuthenticateHeader
  | httpRetryAfterHeader
  | httpVaryHeader
  | httpAllowHeader
  | httpContentEncodingHeader
  | httpContentLanguageHeader
  | httpContentLengthHeader
  | httpContentLocationHeader
  | httpContentMD5Header
  | httpContentRangeHeader
  | httpContentTypeHeader
  | httpSessionCookieHeader
  | httpServerIPAddressHeader
  | httpAccessControlAllowOriginHeader
  | httpCookieHeader
  | httpIllegalHeader
deriving DecidableEq, Repr

inductive HTTPStatusCode where
  | httpContinue
  | httpSwitchingProtocols
  | httpOK
  | httpCreated
  | httpAccepted
  | httpNonAuthoritativeInformation
  | httpNoContent
  | httpResetContent
  | httpPartialContent
  | httpMultipleChoices
  | httpMovedPermanently
  | httpFound
  | httpSeeOther
  | httpNotModified
  | httpUseProxy
  | httpTemporaryRedirect
  | httpBadRequest
  | httpUnAuthorized
  | httpPaymentRequired
  | httpForbidden
  | httpNotFound
  | httpMethodNotAllowed
  | httpNotAcceptable
  | httpProxyAuthenticationRequired
  | httpRequestTimeout
  | httpConflict
  | httpGone
  | httpLengthRequired
  | httpPreconditionFailed
  | httpRequestEntityTooLarge
  | httpRequestURITooLarge
  | httpUnsupportedMediaType
  | httpRequestRangeNotSatisfiable
  | httpExpectationFailed
  | httpInternalServerError
  | httpNotImplemented
  | httpBadGateway
  | httpServiceUnavailable
  | httpGatewayTimeout
  | httpHTTPVersionNotSupported
deriving DecidableEq, Repr

namespace HTTPProtocol

/-! ## Methods -/

/-- `sMethods` -/
def sMethods : HTTPMethod → Option Bytes
  | .httpGetMethod => some (ascii "GET")
  | .httpHeadMethod => some (ascii "HEAD")
  | .httpPostMethod => some (ascii "POST")
  | .httpOptionsMethod => some (ascii "OPTIONS")
  | .httpPutMethod => some (ascii "PUT")
  | .httpDeleteMethod => some (ascii "DELETE")
  | .httpTraceMethod => some (ascii "TRACE")
  | .httpConnectMethod => some (ascii "CONNECT")
  | .httpIllegalMethod => none

/-- The guess of `GetMethod` from the first letter. -/
def guessMethod (c : UInt8) : HTTPMethod :=
  if c = 71 then .httpGetMethod
  else if c = 72 then .httpHeadMethod
  else if c = 80 then .httpPostMethod
  else if c = 79 then .httpOptionsMethod
  else if c = 68 then .httpDeleteMethod
  else if c = 84 then .httpTraceMethod
  else if c = 67 then .httpConnectMethod
  else .httpIllegalMethod

/-- `GetMethod` -/
def getMethod (inMethodStr : Bytes) : HTTPMethod :=
  match inMethodStr with
  | [] => .httpIllegalMethod
  | c :: _ =>
    let theMethod := guessMethod c
    if theMethod ≠ .httpIllegalMethod ∧ sMethods theMethod = some inMethodStr then theMethod
    else if sMethods .httpPutMethod = some inMethodStr then .httpPutMethod
    else .httpIllegalMethod

/-! ## Headers -/

/-- `sHeaders`, which has an entry for the illegal header too. -/
def getHeaderString : HTTPHeader → Bytes
  | .httpConnectionHeader => ascii "Connection"
  | .httpDateHeader => ascii "Date"
  | .httpAuthorizationHeader => ascii "Authorization"
  | .httpIfModifiedSinceHeader => ascii "If-Modified-Since"
  | .httpServerHeader => ascii "Server"
  | .httpWWWAuthenticateHeader => ascii "WWW-Authenticate"
  | .httpExpiresHeader => ascii "Expires"
  | .httpLastModifiedHeader => ascii "Last-Modified"
  | .httpCacheControlHeader => ascii "Cache-Control"
  | .httpPragmaHeader => ascii "Pragma"
  | .httpTrailerHeader => ascii "Trailer"
  | .httpTransferEncodingHeader => ascii "Transfer-Encoding"
  | .httpUpgradeHeader => ascii "Upgrade"
  | .httpViaHeader => ascii "Via"
  | .httpWarningHeader => ascii "Warning"
  | .httpAcceptHeader => ascii "Accept"
  | .httpAcceptCharsetHeader => ascii "Accept-Charset"
  | .httpAcceptEncodingHeader => ascii "Accept-Encoding"
  | .httpAcceptLanguageHeader => ascii "Accept-Language"
  | .httpExpectHeader => ascii "Expect"
  | .httpFromHeader => ascii "From"
  | .httpHostHeader => ascii "Host"
  | .httpIfMatchHeader => ascii "If-Match"
  | .httpIfNoneMatchHeader => ascii "If-None-Match"
  | .httpIfRangeHeader => ascii "If-Range"
  | .httpIfUnmodifiedSinceHeader => ascii "If-Unmodified-Since"
  | .httpMaxForwardsHeader => ascii "Max-Forwards"
  | .httpProxyAuthorizationHeader => ascii "Proxy-Authorization"
  | .httpRangeHeader => ascii "Range"
  | .httpRefererHeader => ascii "Referer"
  | .httpTEHeader => ascii "TE"
  | .httpUserAgentHeader => ascii "User-Agent"
  | .httpAcceptRangesHeader => ascii "Accept-Ranges"
  | .httpAgeHeader => ascii "Age"
  | .httpETagHeader => ascii "ETag"
  | .httpLocationHeader => ascii "Location"
  | .httpProxyAuthenticateHeader => ascii "Proxy-Authenticate"
  | .httpRetryAfterHeader => ascii "Retry-After"
  | .httpVaryHeader => ascii "Vary"
  | .httpAllowHeader => ascii "Allow"
  | .httpContentEncodingHeader => ascii "Content-Encoding"
  | .httpContentLanguageHeader => ascii "Content-Language"
  | .httpContentLengthHeader => ascii "Content-Length"
  | .httpContentLocationHeader => ascii "Content-Location"
  | .httpContentMD5Header => ascii "Content-MD5"
  | .httpContentRangeHeader => ascii "Content-Range"
  | .httpContentTypeHeader => ascii "Content-Type"
  | .httpSessionCookieHeader => ascii "X-SessionCookie"
  | .httpServerIPAddressHeader => ascii "X-Server-IP-Address"
  | .httpAccessControlAllowOriginHeader => ascii "Access-Control-Allow-Origin"
  | .httpCookieHeader => ascii "Cookie"
  | .httpIllegalHeader => ascii " ,"

/-- A name of a header has printable bytes only, and no colon. -/
theorem getHeaderString_printable (header : HTTPHeader) :
    getHeaderString header ≠ [] ∧ ∀ c ∈ getHeaderString header, 32 ≤ c ∧ c < 127 ∧ c ≠ 58 := by
  cases header <;> decide

theorem noEOL_getHeaderString (header : HTTPHeader) :
    StringParser.NoEOL (getHeaderString header) :=
  StringParser.noEOL_of_printable fun c hc => ((getHeaderString_printable header).2 c hc).1

/-- The headers behind the VIP headers, in the order of `sHeaders`. -/
def remainingHeaders : List HTTPHeader :=
    [.httpCacheControlHeader, .httpPragmaHeader, .httpTrailerHeader, .httpTransferEncodingHeader,
     .httpUpgradeHeader, .httpViaHeader, .httpWarningHeader, .httpAcceptHeader,
     .httpAcceptCharsetHeader, .httpAcceptEncodingHeader, .httpAcceptLanguageHeader,
     .httpExpectHeader, .httpFromHeader, .httpHostHeader, .httpIfMatchHeader,
     .httpIfNoneMatchHeader, .httpIfRangeHeader, .httpIfUnmodifiedSinceHeader,
     .httpMaxForwardsHeader, .httpProxyAuthorizationHeader, .httpRangeHeader, .httpRefererHeader,
     .httpTEHeader, .httpUserAgentHeader, .httpAcceptRangesHeader, .httpAgeHeader,
     .httpETagHeader, .httpLocationHeader, .httpProxyAuthenticateHeader, .httpRetryAfterHeader,
     .httpVaryHeader, .httpAllowHeader, .httpContentEncodingHeader, .httpContentLanguageHeader,
     .httpContentLengthHeader, .httpContentLocationHeader, .httpContentMD5Header,
     .httpContentRangeHeader, .httpContentTypeHeader, .httpSessionCookieHeader,
     .httpServerIPAddressHeader, .httpAccessControlAllowOriginHeader, .httpCookieHeader]

/-- The guess of `GetHeader` from the first letter, in either case. -/
def guessHeader (c : UInt8) : HTTPHeader :=
  if c = 67 ∨ c = 99 then .httpConnectionHeader
  else if c = 83 ∨ c = 115 then .httpServerHeader
  else if c = 68 ∨ c = 100 then .httpDateHeader
  else if c = 65 ∨ c = 97 then .httpAuthorizationHeader
  else if c = 87 ∨ c = 119 then .httpWWWAuthenticateHeader
  else if c = 73 ∨ c = 105 then .httpIfModifiedSinceHeader
  else if c = 69 ∨ c = 101 then .httpExpiresHeader
  else if c = 76 ∨ c = 108 then .httpLastModifiedHeader
  else if c = 88 ∨ c = 120 then .httpSessionCookieHeader
  else .httpIllegalHeader

/-- The loop of `GetHeader` -/
def findHeader (inHeaderStr : Bytes) : List HTTPHeader → Option HTTPHeader
  | [] => some .httpIllegalHeader
  | x :: xs =>
    (equalIgnoreCase inHeaderStr (getHeaderString x)).bind fun found =>
      if found then some x else findHeader inHeaderStr xs

/-- `GetHeader` -/
def getHeader (inHeaderStr : Bytes) : Option HTTPHeader :=
  match inHeaderStr with
  | [] => some .httpIllegalHeader
  | c :: _ =>
    let theHeader := guessHeader c
    if theHeader = .httpIllegalHeader then findHeader inHeaderStr remainingHeaders
    else
      (equalIgnoreCase inHeaderStr (getHeaderString theHeader)).bind fun found =>
        if found then some theHeader else findHeader inHeaderStr remainingHeaders

/-! ## Status codes -/

/-- `sStatusCodes` -/
def getStatusCode : HTTPStatusCode → Nat
  | .httpContinue => 100
  | .httpSwitchingProtocols => 101
  | .httpOK => 200
  | .httpCreated => 201
  | .httpAccepted => 202
  | .httpNonAuthoritativeInformation => 203
  | .httpNoContent => 204
  | .httpResetContent => 205
  | .httpPartialContent => 206
  | .httpMultipleChoices => 300
  | .httpMovedPermanently => 301
  | .httpFound => 302
  | .httpSeeOther => 303
  | .httpNotModified => 304
  | .httpUseProxy => 305
  | .httpTemporaryRedirect => 307
  | .httpBadRequest => 400
  | .httpUnAuthorized => 401
  | .httpPaymentRequired => 402
  | .httpForbidden => 403
  | .httpNotFound => 404
  | .httpMethodNotAllowed => 405
  | .httpNotAcceptable => 406
  | .httpProxyAuthenticationRequired => 407
  | .httpRequestTimeout => 408
  | .httpConflict => 409
  | .httpGone => 410
  | .httpLengthRequired => 411
  | .httpPreconditionFailed => 412
  | .httpRequestEntityTooLarge => 413
  | .httpRequestURITooLarge => 414
  | .httpUnsupportedMediaType => 415
  | .httpRequestRangeNotSatisfiable => 416
  | .httpExpectationFailed => 417
  | .httpInternalServerError => 500
  | .httpNotImplemented => 501
  | .httpBadGateway => 502
  | .httpServiceUnavailable => 503
  | .httpGatewayTimeout => 504
  | .httpHTTPVersionNotSupported => 505

/-- `sStatusCodeAsStrings` -/
def getStatusCodeAsString : HTTPStatusCode → Bytes
  | .httpContinue => ascii "100"
  | .httpSwitchingProtocols => ascii "101"
  | .httpOK => ascii "200"
  | .httpCreated => ascii "201"
  | .httpAccepted => ascii "202"
  | .httpNonAuthoritativeInformation => ascii "203"
  | .httpNoContent => ascii "204"
  | .httpResetContent => ascii "205"
  | .httpPartialContent => ascii "206"
  | .httpMultipleChoices => ascii "300"
  | .httpMovedPermanently => ascii "301"
  | .httpFound => ascii "302"
  | .httpSeeOther => ascii "303"
  | .httpNotModified => ascii "304"
  | .httpUseProxy => ascii "305"
  | .httpTemporaryRedirect => ascii "307"
  | .httpBadRequest => ascii "400"
  | .httpUnAuthorized => ascii "401"
  | .httpPaymentRequired => ascii "402"
  | .httpForbidden => ascii "403"
  | .httpNotFound => ascii "404"
  | .httpMethodNotAllowed => ascii "405"
  | .httpNotAcceptable => ascii "406"
  | .httpProxyAuthenticationRequired => ascii "407"
  | .httpRequestTimeout => ascii "408"
  | .httpConflict => ascii "409"
  | .httpGone => ascii "410"
  | .httpLengthRequired => ascii "411"
  | .httpPreconditionFailed => ascii "412"
  | .httpRequestEntityTooLarge => ascii "413"
  | .httpRequestURITooLarge => ascii "414"
  | .httpUnsupportedMediaType => ascii "415"
  | .httpRequestRangeNotSatisfiable => ascii "416"
  | .httpExpectationFailed => ascii "417"
  | .httpInternalServerError => ascii "500"
  | .httpNotImplemented => ascii "501"
  | .httpBadGateway => ascii "502"
  | .httpServiceUnavailable => ascii "503"
  | .httpGatewayTimeout => ascii "504"
  | .httpHTTPVersionNotSupported => ascii "505"

/-- `sStatusCodeStrings` -/
def getStatusCodeString : HTTPStatusCode → Bytes
  | .httpContinue => ascii "Continue"
  | .httpSwitchingProtocols => ascii "Switching Protocols"
  | .httpOK => ascii "OK"
  | .httpCreated => ascii "Created"
  | .httpAccepted => ascii "Accepted"
  | .httpNonAuthoritativeInformation => ascii "Non Authoritative Information"
  | .httpNoContent => ascii "No Content"
  | .httpResetContent => ascii "Reset Content"
  | .httpPartialContent => ascii "Partial Content"
  | .httpMultipleChoices => ascii "Multiple Choices"
  | .httpMovedPermanently => ascii "Moved Permanently"
  | .httpFound => ascii "Found"
  | .httpSeeOther => ascii "See Other"
  | .httpNotModified => ascii "Not Modified"
  | .httpUseProxy => ascii "Use Proxy"
  | .httpTemporaryRedirect => ascii "Temporary Redirect"
  | .httpBadRequest => ascii "Bad Request"
  | .httpUnAuthorized => ascii "Unauthorized"
  | .httpPaymentRequired => ascii "Payment Required"
  | .httpForbidden => ascii "Forbidden"
  | .httpNotFound => ascii "Not Found"
  | .httpMethodNotAllowed => ascii "Method Not Allowed"
  | .httpNotAcceptable => ascii "Not Acceptable"
  | .httpProxyAuthenticationRequired => ascii "Proxy Authentication Required"
  | .httpRequestTimeout => ascii "Request Time-out"
  | .httpConflict => ascii "Conflict"
  | .httpGone => ascii "Gone"
  | .httpLengthRequired => ascii "Length Required"
  | .httpPreconditionFailed => ascii "Precondition Failed"
  | .httpRequestEntityTooLarge => ascii "Request Entity Too Large"
  | .httpRequestURITooLarge => ascii "Request-URI Too Large"
  | .httpUnsupportedMediaType => ascii "Unsupported Media Type"
  | .httpRequestRangeNotSatisfiable => ascii "Request Range Not Satisfiable"
  | .httpExpectationFailed => ascii "Expectation Failed"
  | .httpInternalServerError => ascii "Internal Server Error"
  | .httpNotImplemented => ascii "Not Implemented"
  | .httpBadGateway => ascii "Bad Gateway"
  | .httpServiceUnavailable => ascii "Service Unavailable"
  | .httpGatewayTimeout => ascii "Gateway Timeout"
  | .httpHTTPVersionNotSupported => ascii "HTTP Version not supported"

/-- A text of a status has printable bytes only, and does not start with a blank. -/
theorem getStatusCodeString_printable (status : HTTPStatusCode) :
    (getStatusCodeString status ≠ [] ∧ (getStatusCodeString status).head? ≠ some 32) ∧
      ∀ c ∈ getStatusCodeString status, 32 ≤ c := by
  cases status <;> decide

/-! ## Versions -/

/-- `sVersionStrings` -/
def getVersionString : HTTPVersion → Option Bytes
  | .http09version => some (ascii "HTTP/0.9")
  | .http10Version => some (ascii "HTTP/1.0")
  | .http11Version => some (ascii "HTTP/1.1")
  | .httpIllegalVersion => none

/-- The loop of `GetVersion` -/
def findVersion (versionStr : Bytes) : List HTTPVersion → Option HTTPVersion
  | [] => some .httpIllegalVersion
  | x :: xs =>
    (getVersionString x).bind fun text =>
      (equalIgnoreCase versionStr text).bind fun found =>
        if found then some x else findVersion versionStr xs

/-- `GetVersion` -/
def getVersion (versionStr : Bytes) : Option HTTPVersion :=
  if versionStr.length ≠ 8 then some .httpIllegalVersion
  else findVersion versionStr [.http09version, .http10Version, .http11Version]

end HTTPProtocol

end CxxFramework.Net
