import Schnitzeljagd.Bulld.MainLoop
import Schnitzeljagd.Bulld.Replies
import Schnitzeljagd.Bullencode.Filter
import Schnitzeljagd.Bullencode.Positions
import Schnitzeljagd.Bullencode.SystemCalls
import Schnitzeljagd.Diary.Attempts
import Schnitzeljagd.Diary.Entries
import Schnitzeljagd.Diary.Secrecy
import Schnitzeljagd.Diary.Segmentation
import Schnitzeljagd.Foundations.Base64
import Schnitzeljagd.Foundations.ChallengeLedger
import Schnitzeljagd.Mail.HelpMail
import Schnitzeljagd.News.DatabaseSearch
import Schnitzeljagd.News.Locking
import Schnitzeljagd.News.Navigation
import Schnitzeljagd.News.AccessControl
import Schnitzeljagd.News.Delivery
import Schnitzeljagd.Police.HangUp
import Schnitzeljagd.Police.Race
import Schnitzeljagd.Police.Saving
import Schnitzeljagd.Prison.Apart
import Schnitzeljagd.Prison.Messages
import Schnitzeljagd.Prison.Multicast
import Schnitzeljagd.Servers.ChildLimit
import Schnitzeljagd.Servers.Reaping
import Schnitzeljagd.Spert.Cms
import Schnitzeljagd.Troll.Chain
